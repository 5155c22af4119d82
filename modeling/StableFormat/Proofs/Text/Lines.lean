import StableFormat.Text.Lines

/-!
# Proofs: lines and pieces of a text

The lines of a text join to the text, and pieces that do not hold the separator are found again in
their join.
-/

namespace StableFormat.Text

variable {sep c : Char} {cs line : List Char} {p : Char → Bool} {pieces : List (List Char)}

/-! ## Lines with their endings -/

theorem terminatedLines_newline (cs : List Char) :
    terminatedLines ('\n' :: cs) = ['\n'] :: terminatedLines cs := rfl

theorem terminatedLines_cons (hc : c ≠ '\n') :
    terminatedLines (c :: cs) =
      (c :: (terminatedLines cs).head?.getD []) :: (terminatedLines cs).tail := by
  generalize hlines : terminatedLines cs = lines
  rw [terminatedLines, List.foldr_cons, if_neg hc]
  rw [terminatedLines] at hlines
  rw [hlines]
  cases lines <;> rfl

theorem flatten_terminatedLines (cs : List Char) : (terminatedLines cs).flatten = cs := by
  induction cs with
  | nil => rfl
  | cons c cs ih =>
    by_cases hc : c = '\n'
    · subst hc
      rw [terminatedLines_newline, List.flatten_cons, ih]
      rfl
    · rw [terminatedLines_cons hc]
      cases hlines : terminatedLines cs with
      | nil =>
        rw [hlines] at ih
        rw [← ih]
        rfl
      | cons line rest =>
        rw [hlines, List.flatten_cons] at ih
        rw [← ih]
        rfl

theorem join_linesOf (s : String) : String.join (linesOf s) = s := by
  apply String.toList_injective
  rw [String.toList_join, linesOf, List.flatMap_map]
  simp only [String.toList_ofList]
  exact List.flatten_eq_flatMap.symm.trans (flatten_terminatedLines s.toList)

theorem linesOf_injective {s t : String} (h : linesOf s = linesOf t) : s = t := by
  rw [← join_linesOf s, h, join_linesOf]

/-- A line break ends its line. -/
theorem newline_not_mem_dropLast (h : line ∈ terminatedLines cs) : '\n' ∉ line.dropLast := by
  induction cs generalizing line with
  | nil => simp [terminatedLines] at h
  | cons c cs ih =>
    by_cases hc : c = '\n'
    · subst hc
      rw [terminatedLines_newline, List.mem_cons] at h
      rcases h with rfl | h
      · simp
      · exact ih h
    · rw [terminatedLines_cons hc] at h
      cases hlines : terminatedLines cs with
      | nil =>
        rw [hlines] at h
        obtain rfl : line = [c] := by simpa using h
        simp
      | cons first rest =>
        rw [hlines] at h ih
        rcases List.mem_cons.1 h with rfl | h
        · have hfirst := ih (List.mem_cons_self ..)
          cases first with
          | nil => simp
          | cons c' first =>
            intro hmem
            rcases List.mem_cons.1 hmem with heq | hmem
            · exact hc heq.symm
            · exact hfirst hmem
        · exact ih (List.mem_cons_of_mem _ h)

theorem newline_not_mem_dropTrailing (hp : p '\n' = true) (h : '\n' ∉ line.dropLast) :
    '\n' ∉ dropTrailing p line := by
  induction line with
  | nil => simp [dropTrailing]
  | cons c rest ih =>
    have hunfold : dropTrailing p (c :: rest) =
        if p c && (dropTrailing p rest).isEmpty then [] else c :: dropTrailing p rest := rfl
    rw [hunfold]
    cases rest with
    | nil =>
      by_cases hc : c = '\n'
      · subst hc
        simp [dropTrailing, hp]
      · have hne : ¬ '\n' = c := fun heq => hc heq.symm
        split <;> simp [dropTrailing, hne]
    | cons c' rest =>
      have hne : ¬ '\n' = c := fun heq => h (heq ▸ List.mem_cons_self ..)
      have hrest := ih fun hmem => h (List.mem_cons_of_mem _ hmem)
      split
      · simp
      · simpa [hne] using hrest

theorem newline_not_mem_of_linesOf {s l : String} (h : l ∈ linesOf s) :
    '\n' ∉ l.toList.dropLast := by
  obtain ⟨line, hline, rfl⟩ := List.mem_map.1 h
  rw [String.toList_ofList]
  exact newline_not_mem_dropLast hline

/-- A line break ends a line, whatever follows. -/
theorem terminatedLines_append_newline (h : '\n' ∉ line) (cs : List Char) :
    terminatedLines (line ++ '\n' :: cs) = (line ++ ['\n']) :: terminatedLines cs := by
  induction line with
  | nil => exact terminatedLines_newline cs
  | cons c line ih =>
    have hc : c ≠ '\n' := fun heq => h (heq ▸ List.mem_cons_self)
    rw [List.cons_append, terminatedLines_cons hc, ih fun hmem => h (List.mem_cons_of_mem _ hmem)]
    rfl

/-- What is printed line by line has these lines. -/
theorem linesOf_join {lines : List String} (h : ∀ line ∈ lines, '\n' ∉ line.toList) :
    linesOf (String.join (lines.map (· ++ "\n"))) = lines.map (· ++ "\n") := by
  unfold linesOf
  rw [String.toList_join, List.flatMap_map]
  induction lines with
  | nil => rfl
  | cons line rest ih =>
    have hbreak : (line ++ "\n").toList = line.toList ++ ['\n'] := String.toList_append
    have hline := h line List.mem_cons_self
    rw [List.flatMap_cons, hbreak, List.append_assoc, List.singleton_append,
      terminatedLines_append_newline hline, List.map_cons, List.map_cons,
      ih fun other hother => h other (List.mem_cons_of_mem _ hother), ← hbreak,
      String.ofList_toList]

/-! ## Pieces between separators -/

theorem splitAtChar_sep (sep : Char) (cs : List Char) :
    splitAtChar sep (sep :: cs) = [] :: splitAtChar sep cs :=
  if_pos rfl

theorem splitAtChar_cons (hc : c ≠ sep) {piece : List Char} {rest : List (List Char)}
    (h : splitAtChar sep cs = piece :: rest) :
    splitAtChar sep (c :: cs) = (c :: piece) :: rest := by
  rw [splitAtChar] at h ⊢
  rw [List.foldr_cons, if_neg hc, h]

/-- Characters without the separator go to the first piece. -/
theorem splitAtChar_append {piece : List Char} {rest : List (List Char)} (hsep : sep ∉ line)
    (h : splitAtChar sep cs = piece :: rest) :
    splitAtChar sep (line ++ cs) = (line ++ piece) :: rest := by
  induction line with
  | nil => exact h
  | cons c line ih =>
    have hc : c ≠ sep := fun heq => hsep (heq ▸ List.mem_cons_self ..)
    exact splitAtChar_cons hc (ih fun hmem => hsep (List.mem_cons_of_mem _ hmem))

theorem splitAtChar_joinWithChar (hne : pieces ≠ []) (hsep : ∀ piece ∈ pieces, sep ∉ piece) :
    splitAtChar sep (joinWithChar sep pieces) = pieces := by
  induction pieces with
  | nil => exact absurd rfl hne
  | cons piece rest ih =>
    have hpiece := hsep piece (List.mem_cons_self ..)
    cases rest with
    | nil =>
      have hlast := splitAtChar_append hpiece (show splitAtChar sep [] = [[]] from rfl)
      rw [List.append_nil] at hlast
      exact hlast
    | cons next rest =>
      have hrest := ih (by simp) fun piece hmem => hsep piece (List.mem_cons_of_mem _ hmem)
      have hjoin := splitAtChar_append hpiece
        (splitAtChar_sep sep (joinWithChar sep (next :: rest)))
      rw [hrest, List.append_nil] at hjoin
      exact hjoin

theorem splitAtChar_ne_nil (sep : Char) (cs : List Char) : splitAtChar sep cs ≠ [] := by
  cases cs with
  | nil => exact List.cons_ne_nil _ _
  | cons c cs =>
    rw [splitAtChar, List.foldr_cons]
    split
    · exact List.cons_ne_nil _ _
    · split <;> exact List.cons_ne_nil _ _

/-- An empty first piece comes from a separator at the beginning. -/
theorem head?_of_splitAtChar {pieces : List (List Char)} (hne : pieces ≠ [])
    (h : splitAtChar sep cs = [] :: pieces) : cs.head? = some sep := by
  cases cs with
  | nil =>
    have hpieces : pieces = [] := (List.cons.inj h).2.symm
    exact absurd hpieces hne
  | cons c cs =>
    by_cases hc : c = sep
    · rw [hc, List.head?_cons]
    · cases hcs : splitAtChar sep cs with
      | nil => exact absurd hcs (splitAtChar_ne_nil sep cs)
      | cons first rest =>
        rw [splitAtChar_cons hc hcs] at h
        cases h

theorem not_mem_of_splitAtChar {piece : List Char} (h : piece ∈ splitAtChar sep cs) :
    sep ∉ piece := by
  induction cs generalizing piece with
  | nil =>
    obtain rfl : piece = [] := List.mem_singleton.1 h
    exact List.not_mem_nil
  | cons c cs ih =>
    by_cases hc : c = sep
    · subst hc
      rw [splitAtChar_sep] at h
      rcases List.mem_cons.1 h with rfl | h
      · exact List.not_mem_nil
      · exact ih h
    · cases hcs : splitAtChar sep cs with
      | nil => exact absurd hcs (splitAtChar_ne_nil sep cs)
      | cons first rest =>
        rw [splitAtChar_cons hc hcs] at h
        rw [hcs] at ih
        rcases List.mem_cons.1 h with rfl | h
        · intro hmem
          rcases List.mem_cons.1 hmem with heq | hmem
          · exact hc heq.symm
          · exact ih List.mem_cons_self hmem
        · exact ih (List.mem_cons_of_mem _ h)

/-- The characters of a text, separators apart, are those of its pieces. -/
theorem mem_flatten_splitAtChar (hc : c ≠ sep) : c ∈ (splitAtChar sep cs).flatten ↔ c ∈ cs := by
  induction cs with
  | nil => rfl
  | cons d cs ih =>
    by_cases hd : d = sep
    · subst hd
      rw [splitAtChar_sep, List.flatten_cons, List.nil_append, ih, List.mem_cons, or_iff_right hc]
    · cases hcs : splitAtChar sep cs with
      | nil => exact absurd hcs (splitAtChar_ne_nil sep cs)
      | cons first rest =>
        rw [hcs, List.flatten_cons] at ih
        rw [splitAtChar_cons hd hcs, List.flatten_cons, List.cons_append, List.mem_cons,
          List.mem_cons, ih]

/-- What stands in front of the first separator. -/
theorem takeWhile_ne_append {rest : List Char} (hsep : sep ∉ cs) (hrest : rest.head? = some sep) :
    (cs ++ rest).takeWhile (· ≠ sep) = cs := by
  have hcs : ∀ c ∈ cs, decide (c ≠ sep) = true := fun c hc =>
    decide_eq_true (ne_of_mem_of_not_mem hc hsep)
  obtain ⟨behind, rfl⟩ := List.head?_eq_some_iff.1 hrest
  rw [List.takeWhile_append_of_pos hcs, List.takeWhile_cons_of_neg (by simp), List.append_nil]

/-- What follows from the first separator on. -/
theorem dropWhile_ne_append {rest : List Char} (hsep : sep ∉ cs) (hrest : rest.head? = some sep) :
    (cs ++ rest).dropWhile (· ≠ sep) = rest := by
  have hcs : ∀ c ∈ cs, decide (c ≠ sep) = true := fun c hc =>
    decide_eq_true (ne_of_mem_of_not_mem hc hsep)
  obtain ⟨behind, rfl⟩ := List.head?_eq_some_iff.1 hrest
  rw [List.dropWhile_append_of_pos hcs, List.dropWhile_cons_of_neg (by simp)]

/-- A text is cut at each of its separators on its own. -/
theorem splitAtChar_append_sep (cs rest : List Char) :
    splitAtChar sep (cs ++ sep :: rest) = splitAtChar sep cs ++ splitAtChar sep rest := by
  induction cs with
  | nil => exact splitAtChar_sep sep rest
  | cons c cs ih =>
    by_cases hc : c = sep
    · subst hc
      rw [List.cons_append, splitAtChar_sep, splitAtChar_sep, ih, List.cons_append]
    · cases hcs : splitAtChar sep cs with
      | nil => exact absurd hcs (splitAtChar_ne_nil sep cs)
      | cons first pieces =>
        rw [hcs, List.cons_append] at ih
        rw [List.cons_append, splitAtChar_cons hc ih, splitAtChar_cons hc hcs, List.cons_append]

/-- Where two texts meet, the last piece of the one and the first of the other become one piece. -/
theorem splitAtChar_append_pieces {front rest : List (List Char)} {last first ds : List Char}
    (hcs : splitAtChar sep cs = front ++ [last]) (hds : splitAtChar sep ds = first :: rest) :
    splitAtChar sep (cs ++ ds) = front ++ (last ++ first) :: rest := by
  induction cs generalizing front last with
  | nil =>
    have hnil : [[]] = front ++ [last] := hcs
    cases front with
    | nil =>
      obtain rfl : [] = last := (List.cons.inj hnil).1
      exact hds
    | cons piece front => simp at hnil
  | cons c cs ih =>
    by_cases hc : c = sep
    · subst hc
      rw [splitAtChar_sep] at hcs
      cases front with
      | nil => exact absurd (List.cons.inj hcs).2 (splitAtChar_ne_nil _ _)
      | cons piece front =>
        obtain ⟨rfl, hrest⟩ := List.cons.inj hcs
        rw [List.cons_append, splitAtChar_sep, ih hrest, List.cons_append]
    · cases hpieces : splitAtChar sep cs with
      | nil => exact absurd hpieces (splitAtChar_ne_nil sep cs)
      | cons piece pieces =>
        rw [splitAtChar_cons hc hpieces] at hcs
        cases front with
        | nil =>
          obtain ⟨rfl, rfl⟩ := List.cons.inj hcs
          have hsingle : splitAtChar sep cs = [] ++ [piece] := hpieces
          exact splitAtChar_cons hc (ih hsingle)
        | cons piece' front =>
          obtain ⟨rfl, rfl⟩ := List.cons.inj hcs
          have hcons : splitAtChar sep cs = (piece :: front) ++ [last] := hpieces
          exact splitAtChar_cons hc (ih hcons)

theorem joinWithChar_cons (hne : pieces ≠ []) (piece : List Char) :
    joinWithChar sep (piece :: pieces) = piece ++ sep :: joinWithChar sep pieces := by
  cases pieces with
  | nil => exact absurd rfl hne
  | cons next rest => rfl

theorem mem_joinWithChar (h : c ∈ joinWithChar sep pieces) :
    c = sep ∨ ∃ piece ∈ pieces, c ∈ piece := by
  induction pieces with
  | nil => simp [joinWithChar] at h
  | cons piece rest ih =>
    cases rest with
    | nil => exact Or.inr ⟨piece, List.mem_cons_self .., h⟩
    | cons next rest =>
      rw [joinWithChar, List.mem_append, List.mem_cons] at h
      · rcases h with h | h | h
        · exact Or.inr ⟨piece, List.mem_cons_self .., h⟩
        · exact Or.inl h
        · exact (ih h).imp_right fun ⟨p, hp, hc⟩ => ⟨p, List.mem_cons_of_mem _ hp, hc⟩
      · simp

theorem joinStrings_toList (sep : Char) (pieces : List String) :
    (joinStrings sep pieces).toList = joinWithChar sep (pieces.map String.toList) :=
  String.toList_ofList

theorem splitString_joinStrings {pieces : List String} (hne : pieces ≠ [])
    (hsep : ∀ piece ∈ pieces, sep ∉ piece.toList) :
    splitString sep (joinStrings sep pieces) = pieces := by
  rw [splitString, joinStrings_toList, splitAtChar_joinWithChar (by simpa using hne)]
  · simp
  · simpa using hsep

theorem splitString_of_append {s t u : String} (h : u.toList = s.toList ++ sep :: t.toList) :
    splitString sep u = splitString sep s ++ splitString sep t := by
  rw [splitString, h, splitAtChar_append_sep, List.map_append]
  rfl

theorem splitString_append {s t last first : String} {front rest : List String}
    (hs : splitString sep s = front ++ [last]) (ht : splitString sep t = first :: rest) :
    splitString sep (s ++ t) = front ++ (last ++ first) :: rest := by
  rw [splitString, List.map_eq_append_iff] at hs
  obtain ⟨front, others, hs, rfl, hlast⟩ := hs
  obtain ⟨last, rfl, rfl⟩ := List.map_eq_singleton_iff.1 hlast
  rw [splitString, List.map_eq_cons_iff] at ht
  obtain ⟨first, rest, ht, rfl, rfl⟩ := ht
  rw [splitString, String.toList_append, splitAtChar_append_pieces hs ht, List.map_append,
    List.map_cons, String.ofList_append]

theorem splitString_of_notMem {s : String} (h : sep ∉ s.toList) : splitString sep s = [s] := by
  have hpieces := splitString_joinStrings (List.cons_ne_nil s [])
    (fun piece hpiece => List.mem_singleton.1 hpiece ▸ h)
  rwa [joinStrings, List.map_singleton, joinWithChar, String.ofList_toList] at hpieces

theorem head?_of_splitString {s : String} {pieces : List String} (hne : pieces ≠ [])
    (h : splitString sep s = "" :: pieces) : s.toList.head? = some sep := by
  rw [splitString, List.map_eq_cons_iff] at h
  obtain ⟨first, rest, hsplit, hfirst, hrest⟩ := h
  have hempty : first = [] := by simpa using congrArg String.toList hfirst
  rw [hempty] at hsplit
  refine head?_of_splitAtChar ?_ hsplit
  intro hnil
  rw [hnil] at hrest
  exact hne hrest.symm

theorem splitString_ne_nil (sep : Char) (s : String) : splitString sep s ≠ [] := by
  rw [splitString, Ne, List.map_eq_nil_iff]
  exact splitAtChar_ne_nil sep s.toList

/-- A text that is one piece is that piece. -/
theorem eq_of_splitString_singleton {s piece : String} (h : splitString sep s = [piece]) :
    s = piece := by
  by_cases hsep : sep ∈ s.toList
  · obtain ⟨front, rest, hs⟩ := List.append_of_mem hsep
    have hpieces : splitString sep s =
        splitString sep (String.ofList front) ++ splitString sep (String.ofList rest) :=
      splitString_of_append (by simpa using hs)
    have hfront := List.length_pos_iff.2 (splitString_ne_nil sep (String.ofList front))
    have hrest := List.length_pos_iff.2 (splitString_ne_nil sep (String.ofList rest))
    have hlength := congrArg List.length (hpieces.symm.trans h)
    rw [List.length_append, List.length_singleton] at hlength
    omega
  · rw [splitString_of_notMem hsep] at h
    exact (List.cons.inj h).1

theorem exists_mem_splitString {s : String} (hc : c ≠ sep) :
    (∃ piece ∈ splitString sep s, c ∈ piece.toList) ↔ c ∈ s.toList := by
  rw [← mem_flatten_splitAtChar hc, List.mem_flatten, splitString]
  constructor
  · rintro ⟨piece, hpiece, hmem⟩
    obtain ⟨cs, hcs, rfl⟩ := List.mem_map.1 hpiece
    rw [String.toList_ofList] at hmem
    exact ⟨cs, hcs, hmem⟩
  · rintro ⟨cs, hcs, hmem⟩
    refine ⟨String.ofList cs, List.mem_map_of_mem hcs, ?_⟩
    rwa [String.toList_ofList]

theorem not_mem_of_splitString {s piece : String} (h : piece ∈ splitString sep s) :
    sep ∉ piece.toList := by
  obtain ⟨cs, hcs, rfl⟩ := List.mem_map.1 h
  rw [String.toList_ofList]
  exact not_mem_of_splitAtChar hcs

end StableFormat.Text
