/-
# Traversals that can fail

Every reader of the library goes through a list, one element at a time, and
stops at the first one that is refused.  What such a traversal yields is a
relation between two lists, element by element: `mapM_eq_ok_iff` says so for
results, `mapM_eq_error_iff` says where it stops, and `forall₂_iff_getElem?`
reads the relation at each place.  A traversal that carries a state along stops
at the first element that is refused in the state before it
(`foldlM_eq_error_iff`).  Lists that are related element by element yield the
same under maps that agree on related elements (`map_eq_map_of_forall₂`).
-/
import Mathlib.Data.List.Forall2

namespace Wordcode

variable {α β ε σ : Type}

/-! ## Results that may be errors -/

/-- A computation in two steps yields what its second step makes of a result of
the first. -/
theorem bind_eq_ok_iff {x : Except ε α} {f : α → Except ε β} {b : β} :
    (x >>= f) = .ok b ↔ ∃ a, x = .ok a ∧ f a = .ok b := by
  cases x with
  | error e => exact ⟨nofun, nofun⟩
  | ok a => exact ⟨fun h => ⟨a, rfl, h⟩, fun ⟨_, ha, h⟩ => Except.ok.inj ha ▸ h⟩

/-- A computation in two steps is refused by the first step or, after it, by the
second. -/
theorem bind_eq_error_iff {x : Except ε α} {f : α → Except ε β} {e : ε} :
    (x >>= f) = .error e ↔ x = .error e ∨ ∃ a, x = .ok a ∧ f a = .error e := by
  cases x with
  | error e' =>
      constructor
      · intro h
        cases h
        exact .inl rfl
      · rintro (h | ⟨a, ha, _⟩)
        · cases h
          rfl
        · cases ha
  | ok a =>
      constructor
      · intro h
        exact .inr ⟨a, rfl, h⟩
      · rintro (h | ⟨_, ha, h⟩)
        · cases h
        · cases ha
          exact h

theorem pure_eq_ok_iff {a b : α} : (pure a : Except ε α) = .ok b ↔ a = b :=
  ⟨Except.ok.inj, congrArg Except.ok⟩

theorem except_map_eq_ok_iff {x : Except ε α} {f : α → β} {b : β} :
    x.map f = .ok b ↔ ∃ a, x = .ok a ∧ f a = b := by
  cases x with
  | error e =>
      constructor
      · intro h
        cases h
      · rintro ⟨_, ha, _⟩
        cases ha
  | ok a =>
      constructor
      · intro h
        exact ⟨a, rfl, Except.ok.inj h⟩
      · rintro ⟨_, ha, hb⟩
        cases ha
        exact congrArg Except.ok hb

theorem except_map_eq_error_iff {x : Except ε α} {f : α → β} {e : ε} :
    x.map f = .error e ↔ x = .error e := by
  cases x with
  | error e' =>
      constructor
      · intro h
        cases h
        rfl
      · intro h
        cases h
        rfl
  | ok a =>
      constructor
      · intro h
        cases h
      · intro h
        cases h

/-- Going through a list yields the list of the single results. -/
theorem mapM_eq_ok_iff {f : α → Except ε β} {as : List α} {bs : List β} :
    as.mapM f = .ok bs ↔ List.Forall₂ (fun a b => f a = .ok b) as bs := by
  induction as generalizing bs with
  | nil => exact ⟨fun h => Except.ok.inj h ▸ .nil, fun h => by cases h; rfl⟩
  | cons a as ih =>
      simp only [List.mapM_cons, bind_eq_ok_iff, pure_eq_ok_iff, ih]
      constructor
      · rintro ⟨b, hb, bs', hbs, rfl⟩
        exact .cons hb hbs
      · rintro (_ | ⟨hb, hbs⟩)
        exact ⟨_, hb, _, hbs, rfl⟩

/-- Going through a list is refused by the first element that is refused. -/
theorem mapM_eq_error_iff {f : α → Except ε β} {as : List α} {e : ε} :
    as.mapM f = .error e ↔ ∃ before a after bs, as = before ++ a :: after
      ∧ List.Forall₂ (fun a b => f a = .ok b) before bs ∧ f a = .error e := by
  induction as with
  | nil =>
      constructor
      · intro h
        cases h
      · rintro ⟨before, a, after, bs, has, _⟩
        cases before <;> cases has
  | cons a as ih =>
      simp only [List.mapM_cons, bind_eq_error_iff, ih]
      constructor
      · rintro (ha | ⟨b, hb, ⟨before, a', after, bs, rfl, hbefore, ha'⟩ | ⟨bs, _, hpure⟩⟩)
        · exact ⟨[], a, as, [], rfl, .nil, ha⟩
        · exact ⟨a :: before, a', after, b :: bs, rfl, .cons hb hbefore, ha'⟩
        · cases hpure
      · rintro ⟨before, a', after, bs, has, hbefore, ha'⟩
        cases hbefore with
        | nil =>
            cases has
            exact .inl ha'
        | cons hb hrest =>
            cases has
            exact .inr ⟨_, hb, .inl ⟨_, a', after, _, rfl, hrest, ha'⟩⟩

/-- Going through a list with a state is refused by the first element that is
refused in the state it meets. -/
theorem foldlM_eq_error_iff {f : σ → α → Except ε σ} {as : List α} {s : σ} {e : ε} :
    as.foldlM f s = .error e ↔ ∃ before a after s', as = before ++ a :: after
      ∧ before.foldlM f s = .ok s' ∧ f s' a = .error e := by
  induction as generalizing s with
  | nil =>
      constructor
      · intro h
        cases h
      · rintro ⟨before, a, after, s', has, _⟩
        cases before <;> cases has
  | cons a as ih =>
      simp only [List.foldlM_cons, bind_eq_error_iff, ih]
      constructor
      · rintro (ha | ⟨s₁, hs₁, before, a', after, s', rfl, hbefore, ha'⟩)
        · exact ⟨[], a, as, s, rfl, rfl, ha⟩
        · refine ⟨a :: before, a', after, s', rfl, ?_, ha'⟩
          rw [List.foldlM_cons, bind_eq_ok_iff]
          exact ⟨s₁, hs₁, hbefore⟩
      · rintro ⟨before, a', after, s', has, hbefore, ha'⟩
        cases before with
        | nil =>
            cases has
            cases hbefore
            exact .inl ha'
        | cons b before =>
            cases has
            rw [List.foldlM_cons, bind_eq_ok_iff] at hbefore
            obtain ⟨s₁, hs₁, hbefore⟩ := hbefore
            exact .inr ⟨s₁, hs₁, before, a', after, s', rfl, hbefore, ha'⟩

/-! ## Relations between lists, place by place -/

/-- Two lists are related exactly if they are at every place. -/
theorem forall₂_iff_getElem? {R : α → β → Prop} {as : List α} {bs : List β} :
    List.Forall₂ R as bs ↔ ∀ k : Nat, Option.Rel R as[k]? bs[k]? := by
  induction as generalizing bs with
  | nil =>
      cases bs with
      | nil => exact ⟨fun _ _ => .none, fun _ => .nil⟩
      | cons b bs => exact ⟨nofun, fun h => nomatch h 0⟩
  | cons a as ih =>
      cases bs with
      | nil => exact ⟨nofun, fun h => nomatch h 0⟩
      | cons b bs =>
          rw [List.forall₂_cons, ih]
          constructor
          · rintro ⟨hab, hrest⟩ (_ | k)
            · exact .some hab
            · exact hrest k
          · intro h
            refine ⟨?_, fun k => h (k + 1)⟩
            cases h 0 with
            | some hab => exact hab

/-- A list that is put together is related part by part. -/
theorem forall₂_append_left_iff {R : α → β → Prop} {as as' : List α} {bs : List β} :
    List.Forall₂ R (as ++ as') bs ↔ ∃ cs cs', bs = cs ++ cs' ∧ List.Forall₂ R as cs
      ∧ List.Forall₂ R as' cs' := by
  induction as generalizing bs with
  | nil =>
      constructor
      · intro h
        exact ⟨[], bs, rfl, .nil, h⟩
      · rintro ⟨_, cs', rfl, hnil, h⟩
        cases hnil
        exact h
  | cons a as ih =>
      rw [List.cons_append, List.forall₂_cons_left_iff]
      constructor
      · rintro ⟨b, bs', hab, hrest, rfl⟩
        obtain ⟨cs, cs', rfl, has, has'⟩ := ih.mp hrest
        exact ⟨b :: cs, cs', rfl, .cons hab has, has'⟩
      · rintro ⟨_, cs', rfl, has, has'⟩
        obtain ⟨b, cs, hab, hrest, rfl⟩ := List.forall₂_cons_left_iff.mp has
        exact ⟨b, cs ++ cs', hab, ih.mpr ⟨cs, cs', rfl, hrest, has'⟩, rfl⟩

/-- An element between others is related to the one between those they are related
to. -/
theorem forall₂_append_cons_left_iff {R : α → β → Prop} {a : α} {as as' : List α} {bs : List β} :
    List.Forall₂ R (as ++ a :: as') bs ↔ ∃ cs b cs', bs = cs ++ b :: cs' ∧ List.Forall₂ R as cs
      ∧ R a b ∧ List.Forall₂ R as' cs' := by
  rw [forall₂_append_left_iff]
  constructor
  · rintro ⟨cs, _, rfl, has, hrest⟩
    obtain ⟨b, cs', hab, has', rfl⟩ := List.forall₂_cons_left_iff.mp hrest
    exact ⟨cs, b, cs', rfl, has, hab, has'⟩
  · rintro ⟨cs, b, cs', rfl, has, hab, has'⟩
    exact ⟨cs, b :: cs', rfl, has, .cons hab has'⟩

/-- Related elements that yield the same yield the same lists. -/
theorem map_eq_map_of_forall₂ {γ : Type} {R : α → β → Prop} {F : α → γ} {G : β → γ}
    {as : List α} {bs : List β} (h : List.Forall₂ R as bs) (hFG : ∀ a b, R a b → F a = G b) :
    as.map F = bs.map G := by
  rw [← List.forall₂_eq_eq_eq, List.forall₂_map_left_iff, List.forall₂_map_right_iff]
  exact h.imp hFG

theorem flatMap_eq_flatMap_of_forall₂ {γ : Type} {R : α → β → Prop} {F : α → List γ}
    {G : β → List γ} {as : List α} {bs : List β} (h : List.Forall₂ R as bs)
    (hFG : ∀ a b, R a b → F a = G b) : as.flatMap F = bs.flatMap G := by
  rw [List.flatMap_def, List.flatMap_def, map_eq_map_of_forall₂ h hFG]

theorem filterMap_eq_filterMap_of_forall₂ {γ : Type} {R : α → β → Prop} {F : α → Option γ}
    {G : β → Option γ} {as : List α} {bs : List β} (h : List.Forall₂ R as bs)
    (hFG : ∀ a b, R a b → F a = G b) : as.filterMap F = bs.filterMap G := by
  have hid := congrArg (List.filterMap id) (map_eq_map_of_forall₂ h hFG)
  rwa [List.filterMap_map, List.filterMap_map] at hid

/-! ## Numbered elements -/

/-- Numbered elements are in the order of their numbers. -/
theorem pairwise_zipIdx (as : List α) {first : Nat} :
    (as.zipIdx first).Pairwise fun p q => p.2 < q.2 := by
  have hsnd : ((as.zipIdx first).map Prod.snd).Pairwise (· < ·) := by
    rw [List.zipIdx_map_snd]
    exact List.pairwise_lt_range'
  exact List.pairwise_map.mp hsnd

/-- Related lists stay related when their elements are numbered. -/
theorem forall₂_zipIdx_of_forall₂ {R : α → β → Prop} {as : List α} {bs : List β}
    (h : List.Forall₂ R as bs) (first : Nat) :
    List.Forall₂ (fun p q => R p.1 q.1 ∧ p.2 = q.2) (as.zipIdx first) (bs.zipIdx first) := by
  induction h generalizing first with
  | nil => exact .nil
  | cons hab _ ih => exact .cons ⟨hab, rfl⟩ (ih (first + 1))

end Wordcode
