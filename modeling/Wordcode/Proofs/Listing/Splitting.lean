/-
# Splitting — a text cut in two

If no lexeme lies across the place where `before` ends, the lexemes of a text are
those of `before` and those of what follows.  `Splits` says that this stays so
when something else follows, as long as no lexeme of `before` goes on into it; so
what follows a place can be exchanged without looking at what comes before.

There is one exception.  A place inside a comment is inside no lexeme, but the
comment does go on past it (`splits_or_comment`).
-/
import Wordcode.Proofs.Listing.Boundary

namespace Wordcode

/-! ## Bytes -/

namespace Text

theorem foldl_utf8Size (n : Nat) (cs : List Char) :
    cs.foldl (fun n c => n + c.utf8Size) n = n + byteLength cs := by
  induction cs generalizing n with
  | nil => rfl
  | cons c cs ih =>
      rw [byteLength, List.foldl_cons, List.foldl_cons, ih, ih (0 + c.utf8Size)]
      omega

theorem byteLength_cons (c : Char) (cs : List Char) :
    byteLength (c :: cs) = c.utf8Size + byteLength cs := by
  rw [byteLength, List.foldl_cons, foldl_utf8Size, Nat.zero_add]

theorem byteLength_append (cs ds : List Char) :
    byteLength (cs ++ ds) = byteLength cs + byteLength ds := by
  rw [byteLength, List.foldl_append, foldl_utf8Size]
  rfl

theorem byteLength_pos {cs : List Char} (h : cs ≠ []) : 0 < byteLength cs := by
  cases cs with
  | nil => exact (h rfl).elim
  | cons c cs =>
      have hc := c.utf8Size_pos
      rw [byteLength_cons]
      omega

/-- A part at the front that is no longer in bytes is no longer in characters. -/
theorem le_length_of_byteLength_take {cs ds : List Char} {n : Nat}
    (hn : n ≤ (cs ++ ds).length) (h : byteLength ((cs ++ ds).take n) ≤ byteLength cs) :
    n ≤ cs.length := by
  by_contra hlong
  rw [List.length_append] at hn
  have hne : ds.take (n - cs.length) ≠ [] :=
    List.ne_nil_of_length_pos (by rw [List.length_take]; omega)
  have hpos := byteLength_pos hne
  rw [List.take_append, List.take_of_length_le (by omega), byteLength_append] at h
  omega

end Text

open Text

namespace Lexeme

variable {c : Char} {tail before after rest cs : List Char} {token : Token} {l l' : Lexeme}
  {start : Nat}

theorem utf8Size_of_isBlank (hc : isBlank c) : c.utf8Size = 1 := by
  simp only [isBlank, Bool.or_eq_true, beq_iff_eq] at hc
  rcases hc with (rfl | rfl) | rfl <;> rfl

theorem utf8Size_of_startsComment (hc : startsComment c) : c.utf8Size = 1 := by
  simp only [startsComment, Bool.or_eq_true, beq_iff_eq] at hc
  rcases hc with rfl | rfl <;> rfl

/-- A lexeme that takes `tail` besides its first character is followed by the
lexemes of the rest. -/
theorem scan_cons (hblank : ¬ isBlank c) (hcomment : ¬ startsComment c)
    (hmore : (cut c (tail ++ rest)).more = tail.length) :
    scan start (c :: (tail ++ rest)) = ⟨start, c :: tail, (cut c (tail ++ rest)).token?⟩
      :: scan (start + byteLength (c :: tail)) rest := by
  rw [scan, if_neg hblank, if_neg hcomment]
  simp only [hmore, List.take_left, List.drop_left]

/-! ## Where lexemes stand -/

/-- A lexeme has a character, and lies within the text. -/
theorem bounds_of_mem_scan (h : l ∈ scan start cs) :
    start ≤ l.start ∧ l.start < l.stop ∧ l.stop ≤ start + byteLength cs := by
  induction start, cs using scan.induct with
  | case1 start =>
      rw [scan] at h
      cases h
  | case2 start c rest hblank ih =>
      rw [scan, if_pos hblank] at h
      have hbounds := ih h
      rw [byteLength_cons, utf8Size_of_isBlank hblank]
      omega
  | case3 start c rest hblank hcomment ih =>
      rw [scan, if_neg hblank, if_pos hcomment] at h
      have hbounds := ih h
      rw [Nat.add_assoc (start + 1), ← byteLength_append, List.takeWhile_append_dropWhile]
        at hbounds
      rw [byteLength_cons, utf8Size_of_startsComment hcomment]
      omega
  | case4 start c rest hblank hcomment next text =>
      rename_i ih
      have hpos : 0 < byteLength text := byteLength_pos (List.cons_ne_nil _ _)
      have hsplit : byteLength (c :: rest) = byteLength text + byteLength (rest.drop next.more) := by
        rw [← byteLength_append, List.cons_append, List.take_append_drop]
      rw [scan, if_neg hblank, if_neg hcomment, List.mem_cons] at h
      rw [hsplit]
      rcases h with rfl | h
      · exact ⟨Nat.le_refl _, Nat.lt_add_of_pos_right hpos,
          Nat.add_le_add_left (Nat.le_add_right _ _) start⟩
      · have hbounds := ih h
        omega

/-- Lexemes come one after another. -/
theorem pairwise_scan (start : Nat) (cs : List Char) :
    (scan start cs).Pairwise fun l l' => l.stop ≤ l'.start := by
  induction start, cs using scan.induct with
  | case1 start =>
      rw [scan]
      exact .nil
  | case2 start c rest hblank ih => rwa [scan, if_pos hblank]
  | case3 start c rest hblank hcomment ih => rwa [scan, if_neg hblank, if_pos hcomment]
  | case4 start c rest hblank hcomment next text =>
      rename_i ih
      rw [scan, if_neg hblank, if_neg hcomment]
      exact .cons (fun l' hl' => (bounds_of_mem_scan hl').1) ih

/-- No lexeme lies across the start of another. -/
theorem stop_le_or_start_le (hl : l ∈ scan start cs) (hl' : l' ∈ scan start cs) :
    l'.stop ≤ l.start ∨ l.start ≤ l'.start := by
  have hordered := pairwise_scan start cs
  obtain ⟨left, right, hsplit⟩ := List.append_of_mem hl
  rw [hsplit] at hordered hl'
  obtain ⟨_, hright, hleft⟩ := List.pairwise_append.mp hordered
  rcases List.mem_append.mp hl' with hmem | hmem
  · exact .inl (hleft l' hmem l (List.mem_cons_self ..))
  · rcases List.mem_cons.mp hmem with rfl | hmem
    · exact .inr (Nat.le_refl _)
    · exact .inr (Nat.le_trans (Nat.le_add_right _ _) ((List.pairwise_cons.mp hright).1 l' hmem))

/-- A lexeme where a text starts is what is cut off first. -/
theorem exists_scan_eq_cons (h : l ∈ scan start cs) (hstart : l.start = start) :
    ∃ c tail rest, l.text = c :: tail ∧ cs = c :: (tail ++ rest)
      ∧ cut c (tail ++ rest) = ⟨tail.length, l.token?⟩
      ∧ scan start cs = l :: scan l.stop rest := by
  cases cs with
  | nil =>
      rw [scan] at h
      cases h
  | cons c rest =>
      by_cases hblank : isBlank c
      · rw [scan, if_pos hblank] at h
        have hbounds := bounds_of_mem_scan h
        omega
      by_cases hcomment : startsComment c
      · rw [scan, if_neg hblank, if_pos hcomment] at h
        have hbounds := bounds_of_mem_scan h
        omega
      rw [scan, if_neg hblank, if_neg hcomment, List.mem_cons] at h
      rcases h with rfl | h
      · refine ⟨c, rest.take (cut c rest).more, rest.drop (cut c rest).more, rfl, ?_, ?_, ?_⟩
        · rw [List.take_append_drop]
        · rw [List.take_append_drop, List.length_take_of_le (more_cut_le c rest)]
        · rw [scan, if_neg hblank, if_neg hcomment]
          rfl
      · have hbounds := bounds_of_mem_scan h
        have hpos := byteLength_pos (List.cons_ne_nil c (rest.take (cut c rest).more))
        omega

/-! ## Splitting -/

/-- Whatever follows `before`, and is gone on into no more than `after` is, is cut
on its own. -/
def Splits (start : Nat) (before after : List Char) : Prop :=
  ∀ rest, NoLonger after rest →
    scan start (before ++ rest) = scan start before ++ scan (start + byteLength before) rest

namespace Splits

theorem nil : Splits start [] after := fun rest _ => by
  rw [scan.eq_1]
  rfl

theorem blank (hc : isBlank c) (h : Splits (start + 1) before after) :
    Splits start (c :: before) after := fun rest hrest => by
  rw [List.cons_append, scan, if_pos hc, h rest hrest, scan, if_pos hc, byteLength_cons,
    utf8Size_of_isBlank hc, Nat.add_assoc]

theorem cons (hblank : ¬ isBlank c) (hcomment : ¬ startsComment c)
    (hcut : cut c (tail ++ (before ++ after)) = ⟨tail.length, some token⟩)
    (h : Splits (start + byteLength (c :: tail)) before after) :
    Splits start (c :: (tail ++ before)) after := fun rest hrest => by
  have hnothing : NoLonger (before ++ after) (before ++ []) := (separated_nil.noLonger after).append _
  have hcut' := cut_congr hcut hnothing
  have hcut'' := cut_congr hcut (hrest.append before)
  rw [List.append_nil] at hcut'
  have hlength : byteLength (c :: (tail ++ before)) = byteLength (c :: tail) + byteLength before :=
    byteLength_append (c :: tail) before
  rw [List.cons_append, List.append_assoc, scan_cons hblank hcomment (congrArg Cut.more hcut''),
    scan_cons hblank hcomment (congrArg Cut.more hcut'), hcut', hcut'', h rest hrest, hlength,
    Nat.add_assoc, List.cons_append]

end Splits

/-- The place after `before` lies inside a comment. -/
def Commented (start : Nat) (before after : List Char) : Prop :=
  ∃ lead mark comment, before = lead ++ mark :: comment ∧ startsComment mark
    ∧ '\n' ∉ comment ++ after ∧ Splits start lead (mark :: (comment ++ after))

namespace Commented

theorem blank (hc : isBlank c) (h : Commented (start + 1) before after) :
    Commented start (c :: before) after := by
  obtain ⟨lead, mark, comment, rfl, hmark, hline, hlead⟩ := h
  exact ⟨c :: lead, mark, comment, rfl, hmark, hline, hlead.blank hc⟩

theorem cons (hblank : ¬ isBlank c) (hcomment : ¬ startsComment c)
    (hcut : cut c (tail ++ (before ++ after)) = ⟨tail.length, some token⟩)
    (h : Commented (start + byteLength (c :: tail)) before after) :
    Commented start (c :: (tail ++ before)) after := by
  obtain ⟨lead, mark, comment, rfl, hmark, hline, hlead⟩ := h
  rw [List.append_assoc] at hcut
  refine ⟨c :: (tail ++ lead), mark, comment, ?_, hmark, hline, hlead.cons hblank hcomment hcut⟩
  rw [List.cons_append, List.append_assoc]

/-- What comes after a comment has begun is not looked at. -/
theorem scan_append (h : Commented start before after) (hrest : '\n' ∉ rest) :
    scan start (before ++ rest) = scan start before := by
  obtain ⟨lead, mark, comment, rfl, hmark, hline, hlead⟩ := h
  have hnothing : ∀ ds, '\n' ∉ ds →
      scan start (lead ++ mark :: (comment ++ ds)) = scan start lead := by
    intro ds hds
    have hcomment : '\n' ∉ comment ++ ds := by
      rw [List.mem_append, not_or] at hline ⊢
      exact ⟨hline.1, hds⟩
    rw [hlead _ ((separated_of_startsComment hmark).noLonger _),
      List.map_eq_nil_iff.mp (Yields.comment hmark hcomment _), List.append_nil]
  have hcomment := hnothing [] List.not_mem_nil
  rw [List.append_nil] at hcomment
  rw [List.append_assoc, List.cons_append, hnothing rest hrest, hcomment]

theorem newline_not_mem (h : Commented start before after) : '\n' ∉ after := by
  obtain ⟨_, _, _, _, _, hline, _⟩ := h
  exact fun hmem => hline (List.mem_append_right _ hmem)

end Commented

/-- If a line is cut into tokens only, a comment in it goes on to its end. -/
theorem newline_not_mem_of_comment (hc : startsComment c)
    (htokens : ∀ l ∈ scan start (c :: cs), l.token? ≠ none) : '\n' ∉ cs := by
  intro hmem
  have hblank : ¬ isBlank c := not_isBlank hc (by decide) (by decide) (by decide)
  obtain ⟨line, rest, rfl, hline⟩ := List.eq_append_cons_of_mem hmem
  have hdrop : (line ++ '\n' :: rest).dropWhile (· ≠ '\n') = '\n' :: rest := by
    refine dropWhile_append_eq (fun d hd => decide_eq_true ?_) ?_
    · rintro rfl
      exact hline hd
    · rintro d ⟨⟩
      rfl
  rw [scan, if_neg hblank, if_pos hc, hdrop, scan, if_neg (by decide), if_neg (by decide)] at htokens
  exact htokens _ (List.mem_cons_self ..) rfl

/-- A lexeme that does not reach past `before` takes a part of it. -/
theorem exists_tail_of_byteLength_le
    (h : byteLength (c :: (before ++ after).take (cut c (before ++ after)).more)
      ≤ byteLength (c :: before)) :
    ∃ tail rest, before = tail ++ rest
      ∧ (cut c (tail ++ (rest ++ after))).more = tail.length := by
  have hmore : (cut c (before ++ after)).more ≤ before.length := by
    refine le_length_of_byteLength_take (more_cut_le c _) ?_
    rwa [byteLength_cons, byteLength_cons, Nat.add_le_add_iff_left] at h
  refine ⟨before.take (cut c (before ++ after)).more, before.drop (cut c (before ++ after)).more,
    (List.take_append_drop ..).symm, ?_⟩
  rw [← List.append_assoc, List.take_append_drop, List.length_take_of_le hmore]

/-- A text of tokens is cut in two wherever no token lies across, or the place is
inside a comment. -/
theorem splits_or_commented (htokens : ∀ l ∈ scan start (before ++ after), l.token? ≠ none)
    (hplace : ∀ l ∈ scan start (before ++ after),
      l.stop ≤ start + byteLength before ∨ start + byteLength before ≤ l.start) :
    Splits start before after ∨ Commented start before after := by
  -- over the length of `before`: a lexeme takes any number of characters of it
  induction hn : before.length using Nat.strongRecOn generalizing start before with
  | ind n ih =>
  rcases before with _ | ⟨c, before⟩
  · exact .inl .nil
  by_cases hblank : isBlank c
  · rw [List.cons_append, scan, if_pos hblank] at htokens hplace
    rw [byteLength_cons, utf8Size_of_isBlank hblank, ← Nat.add_assoc] at hplace
    have hlt : before.length < n := by
      rw [← hn]
      exact Nat.lt_succ_self _
    exact (ih _ hlt htokens hplace rfl).imp (.blank hblank) (.blank hblank)
  by_cases hcomment : startsComment c
  · exact .inr ⟨[], c, before, rfl, hcomment, newline_not_mem_of_comment hcomment htokens, .nil⟩
  have hfirst : byteLength (c :: (before ++ after).take (cut c (before ++ after)).more)
      ≤ byteLength (c :: before) := by
    have hpos := byteLength_pos (List.cons_ne_nil c before)
    rw [List.cons_append, scan, if_neg hblank, if_neg hcomment, List.forall_mem_cons] at hplace
    have hfits := hplace.1
    simp only [Lexeme.stop] at hfits
    omega
  obtain ⟨tail, rest, rfl, hmore⟩ := exists_tail_of_byteLength_le hfirst
  rw [List.cons_append, List.append_assoc, scan_cons hblank hcomment hmore,
    List.forall_mem_cons] at htokens hplace
  obtain ⟨token, htoken⟩ := Option.ne_none_iff_exists'.mp htokens.1
  have hcut : cut c (tail ++ (rest ++ after)) = ⟨tail.length, some token⟩ := by
    rw [← hmore, ← htoken]
  have hlength : byteLength (c :: (tail ++ rest)) = byteLength (c :: tail) + byteLength rest :=
    byteLength_append (c :: tail) rest
  rw [hlength, ← Nat.add_assoc] at hplace
  have hlt : rest.length < n := by
    rw [← hn, List.length_cons, List.length_append]
    omega
  exact (ih _ hlt htokens.2 hplace.2 rfl).imp (.cons hblank hcomment hcut)
    (.cons hblank hcomment hcut)

/-- Before a token of a text the text is cut in two, and the token is what is cut
off next. -/
theorem splits_of_mem
    (htokens : ∀ l' ∈ scan start (before ++ (l.text ++ after)), l'.token? ≠ none)
    (hl : l ∈ scan start (before ++ (l.text ++ after)))
    (hstart : l.start = start + byteLength before) :
    Splits start before (l.text ++ after) ∧ ∃ c tail, l.text = c :: tail
      ∧ cut c (tail ++ after) = ⟨tail.length, l.token?⟩
      ∧ scan l.start (l.text ++ after) = l :: scan l.stop after := by
  have hplace : ∀ l' ∈ scan start (before ++ (l.text ++ after)),
      l'.stop ≤ start + byteLength before ∨ start + byteLength before ≤ l'.start := by
    intro l' hl'
    rw [← hstart]
    exact stop_le_or_start_le hl hl'
  have hnot : l ∉ scan start before := by
    intro hmem
    have hbounds := bounds_of_mem_scan hmem
    omega
  rcases splits_or_commented htokens hplace with hsplits | hcommented
  · rw [hsplits _ (.refl _), List.mem_append, ← hstart] at hl
    obtain ⟨c, tail, rest, htext, hcs, hcut, hscan⟩ := exists_scan_eq_cons (hl.resolve_left hnot) rfl
    rw [htext] at hcs
    obtain rfl : after = rest := List.append_cancel_left hcs
    exact ⟨hsplits, c, tail, htext, hcut, hscan⟩
  · rw [hcommented.scan_append hcommented.newline_not_mem] at hl
    exact (hnot hl).elim

/-! ## Tokens -/

namespace Yields

variable {ts us vs : List Token}

theorem token?_ne_none (h : Yields cs ts) : ∀ l ∈ scan 0 cs, l.token? ≠ none := by
  intro l hl hnone
  have hmem : l.token? ∈ (scan 0 cs).map Lexeme.token? := List.mem_map_of_mem hl
  rw [yields_iff.mp h, hnone, List.mem_map] at hmem
  obtain ⟨_, _, hsome⟩ := hmem
  cases hsome

/-- What follows a place where a text is cut in two can be exchanged. -/
theorem append (hbefore : Yields before us) (hsplits : Splits 0 before after)
    (hrest : NoLonger after rest) (h : Yields rest vs) : Yields (before ++ rest) (us ++ vs) := by
  rw [yields_iff, hsplits rest hrest, List.map_append, hbefore 0, h, List.map_append]

/-- The tokens of a text are those before a lexeme, its own, and those after it. -/
theorem exists_of_mem (h : Yields (before ++ (l.text ++ after)) ts)
    (hl : l ∈ scan 0 (before ++ (l.text ++ after))) (hstart : l.start = byteLength before) :
    Splits 0 before (l.text ++ after) ∧ ∃ c tail us token vs, l.text = c :: tail
      ∧ cut c (tail ++ after) = ⟨tail.length, some token⟩ ∧ l.token? = some token
      ∧ ts = us ++ token :: vs ∧ Yields before us ∧ Yields after vs := by
  obtain ⟨hsplits, c, tail, htext, hcut, hscan⟩ :=
    splits_of_mem h.token?_ne_none hl (by rw [hstart, Nat.zero_add])
  have htokens := yields_iff.mp h
  rw [hsplits _ (.refl _), Nat.zero_add, ← hstart, hscan, List.map_append, List.map_cons, eq_comm,
    List.map_eq_append_iff] at htokens
  obtain ⟨us, rest, rfl, hus, hrest⟩ := htokens
  obtain ⟨token, vs, rfl, htoken, hvs⟩ := List.map_eq_cons_iff.mp hrest
  refine ⟨hsplits, c, tail, us, token, vs, htext, by rw [hcut, htoken], htoken.symm, rfl,
    yields_iff.mpr hus.symm, yields_iff.mpr ?_⟩
  rw [hvs]
  exact map_token?_scan ..

end Yields

end Lexeme

end Wordcode
