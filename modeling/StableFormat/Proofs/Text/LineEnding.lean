import Mathlib.Data.List.Basic
import StableFormat.Text.LineEnding

/-!
# Proofs: endings written back and read again

The ending that a policy asks for is written to a text with `\n` endings. Reading the result gives
the text again, and the policy asks for the same ending then, provided that no `\r` stood beside the
`\n` before.
-/

namespace StableFormat.LineEnding

variable {policy : LineEnding} {cs : List Char} {s text source : String}

/-- Not both of `\r` and `\n` are in the text. -/
def Normal (text : String) : Prop :=
  ¬ ('\r' ∈ text.toList ∧ '\n' ∈ text.toList)

/-- Each `\n` directly follows a `\r`. -/
def FeedsFollowReturns (cs : List Char) : Prop :=
  ∀ before after, cs = before ++ '\n' :: after → before.getLast? = some '\r'

/-- Each `\r` is directly followed by a `\n`. -/
def ReturnsPrecedeFeeds (cs : List Char) : Prop :=
  ∀ before after, cs = before ++ '\r' :: after → after.head? = some '\n'

/-! ## Reading -/

theorem mem_toUnix_return : '\r' ∈ (toUnix s).toList ↔ '\r' ∈ s.toList ∧ '\n' ∉ s.toList := by
  rw [toUnix]
  split
  · next h =>
    rw [List.contains_iff_mem] at h
    simp [h]
  · next h =>
    rw [List.contains_iff_mem] at h
    simp [h]

theorem mem_toUnix_newline : '\n' ∈ (toUnix s).toList ↔ '\n' ∈ s.toList := by
  rw [toUnix]
  split <;> simp

theorem normal_toUnix (s : String) : Normal (toUnix s) := by
  rw [Normal, mem_toUnix_return, mem_toUnix_newline]
  rintro ⟨⟨-, hnone⟩, hsome⟩
  exact hnone hsome

theorem toUnix_of_normal (h : Normal s) : toUnix s = s := by
  rw [toUnix]
  split
  · next hn =>
    rw [List.contains_iff_mem] at hn
    have hr : '\r' ∉ s.toList := fun hr => h ⟨hr, hn⟩
    have hkept : s.toList.filter (· ≠ '\r') = s.toList := by
      rw [List.filter_eq_self]
      intro c hc
      have hne : c ≠ '\r' := fun heq => hr (heq ▸ hc)
      simpa using hne
    rw [hkept, String.ofList_toList]
  · rfl

/-! ## Writing `\r\n` -/

/-- The characters of a text with `\r\n` for each `\n`. -/
def withReturns (cs : List Char) : List Char :=
  cs.flatMap fun c => if c = '\n' then ['\r', '\n'] else [c]

theorem withReturns_newline (cs : List Char) :
    withReturns ('\n' :: cs) = '\r' :: '\n' :: withReturns cs := rfl

theorem withReturns_cons {c : Char} (hc : c ≠ '\n') (cs : List Char) :
    withReturns (c :: cs) = c :: withReturns cs := by
  rw [withReturns, List.flatMap_cons, if_neg hc]
  rfl

/-- Induction on a text whose line breaks are treated apart from its other characters. -/
@[elab_as_elim]
theorem feed_induction {motive : List Char → Prop} (cs : List Char) (nil : motive [])
    (newline : ∀ cs, motive cs → motive ('\n' :: cs))
    (cons : ∀ c cs, c ≠ '\n' → motive cs → motive (c :: cs)) : motive cs := by
  induction cs with
  | nil => exact nil
  | cons c cs ih =>
    by_cases hc : c = '\n'
    · rw [hc]
      exact newline cs ih
    · exact cons c cs hc ih

theorem withReturns_append (cs ds : List Char) :
    withReturns (cs ++ ds) = withReturns cs ++ withReturns ds :=
  List.flatMap_append

theorem withReturns_eq_self (h : '\n' ∉ cs) : withReturns cs = cs := by
  induction cs with
  | nil => rfl
  | cons c cs ih =>
    rw [List.mem_cons, not_or] at h
    rw [withReturns_cons (Ne.symm h.1), ih h.2]

theorem filter_withReturns (h : '\r' ∉ cs) : (withReturns cs).filter (· ≠ '\r') = cs := by
  induction cs using feed_induction with
  | nil => rfl
  | newline cs ih =>
    rw [withReturns_newline, List.filter_cons_of_neg (by simp), List.filter_cons_of_pos (by simp),
      ih (List.not_mem_of_not_mem_cons h)]
  | cons c cs hc ih =>
    have hne : c ≠ '\r' := Ne.symm (List.ne_of_not_mem_cons h)
    rw [withReturns_cons hc, List.filter_cons_of_pos (by simpa using hne),
      ih (List.not_mem_of_not_mem_cons h)]

theorem mem_withReturns_newline : '\n' ∈ withReturns cs ↔ '\n' ∈ cs := by
  induction cs using feed_induction with
  | nil => rfl
  | newline cs ih =>
    rw [withReturns_newline]
    simp
  | cons c cs hc ih => rw [withReturns_cons hc, List.mem_cons, List.mem_cons, ih]

theorem count_withReturns (cs : List Char) : (withReturns cs).count '\n' = cs.count '\n' := by
  induction cs using feed_induction with
  | nil => rfl
  | newline cs ih =>
    rw [withReturns_newline]
    simp [ih]
  | cons c cs hc ih => rw [withReturns_cons hc, List.count_cons, List.count_cons, ih]

theorem countCrLf_cons {c : Char} (hc : c ≠ '\r') (cs : List Char) :
    countCrLf (c :: cs) = countCrLf cs := by
  rw [countCrLf]
  intro rest h _
  exact hc h

theorem countCrLf_of_no_return (h : '\r' ∉ cs) : countCrLf cs = 0 := by
  induction cs with
  | nil => rfl
  | cons c cs ih =>
    rw [List.mem_cons, not_or] at h
    rw [countCrLf_cons (Ne.symm h.1), ih h.2]

theorem countCrLf_of_no_newline (h : '\n' ∉ cs) : countCrLf cs = 0 := by
  induction cs with
  | nil => rfl
  | cons c cs ih =>
    rw [List.mem_cons, not_or] at h
    rw [countCrLf, ih h.2]
    rintro rest - rfl
    exact h.2 List.mem_cons_self

theorem countCrLf_withReturns (h : '\r' ∉ cs) :
    countCrLf (withReturns cs) = cs.count '\n' := by
  induction cs using feed_induction with
  | nil => rfl
  | newline cs ih =>
    rw [withReturns_newline, countCrLf, ih (List.not_mem_of_not_mem_cons h), List.count_cons_self]
  | cons c cs hc ih =>
    have hne : c ≠ '\r' := Ne.symm (List.ne_of_not_mem_cons h)
    rw [withReturns_cons hc, countCrLf_cons hne, ih (List.not_mem_of_not_mem_cons h),
      List.count_cons_of_ne hc]

theorem feedsFollowReturns_withReturns (cs : List Char) : FeedsFollowReturns (withReturns cs) := by
  induction cs using feed_induction with
  | nil =>
    intro before after h
    simp [withReturns] at h
  | newline cs ih =>
    intro before after h
    rw [withReturns_newline] at h
    -- This `\n` is the second character; any other one is in what was there behind it.
    rcases before with _ | ⟨b, _ | ⟨b', before⟩⟩
    · simp at h
    · obtain ⟨rfl, -⟩ := List.cons.inj h
      rfl
    · have hrest : withReturns cs = before ++ '\n' :: after :=
        (List.cons.inj (List.cons.inj h).2).2
      have hlast := ih before after hrest
      simp [List.getLast?_cons, hlast]
  | cons c cs hc ih =>
    intro before after h
    rw [withReturns_cons hc] at h
    rcases before with _ | ⟨b, before⟩
    · exact absurd (List.cons.inj h).1 hc
    · have hlast := ih before after (List.cons.inj h).2
      simp [List.getLast?_cons, hlast]

/-- A `\r` that was there before is never directly followed by a `\n`. -/
theorem returnsPrecedeFeeds_withReturns :
    ReturnsPrecedeFeeds (withReturns cs) ↔ '\r' ∉ cs := by
  constructor
  · intro h hr
    obtain ⟨before, after, rfl⟩ := List.append_of_mem hr
    have hsplit : withReturns (before ++ '\r' :: after) =
        withReturns before ++ '\r' :: withReturns after := by
      rw [withReturns_append, withReturns_cons (by decide)]
    have hhead := h _ _ hsplit
    cases after with
    | nil => cases hhead
    | cons c after =>
      by_cases hc : c = '\n'
      · subst hc
        rw [withReturns_newline] at hhead
        simp at hhead
      · rw [withReturns_cons hc] at hhead
        exact hc (Option.some.inj hhead)
  · intro hr
    induction cs using feed_induction with
    | nil =>
      intro before after h
      simp [withReturns] at h
    | newline cs ih =>
      intro before after h
      have hrest := List.not_mem_of_not_mem_cons hr
      rw [withReturns_newline] at h
      rcases before with _ | ⟨b, _ | ⟨b', before⟩⟩
      · obtain ⟨-, rfl⟩ := List.cons.inj h
        rfl
      · simp at h
      · exact ih hrest before after (List.cons.inj (List.cons.inj h).2).2
    | cons c cs hc ih =>
      intro before after h
      have hrest := List.not_mem_of_not_mem_cons hr
      rw [withReturns_cons hc] at h
      rcases before with _ | ⟨b, before⟩
      · exact absurd (List.cons.inj h).1.symm (List.ne_of_not_mem_cons hr)
      · exact ih hrest before after (List.cons.inj h).2

/-! ## Writing the ending of a policy -/

theorem endingFor_eq (policy : LineEnding) (source : String) :
    policy.endingFor source = "\n" ∨ policy.endingFor source = "\r\n" := by
  cases policy with
  | unix => exact Or.inl rfl
  | windows => exact Or.inr rfl
  | platformNative => exact Or.inl rfl
  | preserve =>
    show predominant source = "\n" ∨ predominant source = "\r\n"
    rw [predominant]
    split
    · exact Or.inr rfl
    · exact Or.inl rfl

theorem apply_feed (h : policy.endingFor source = "\n") : policy.apply text source = text := by
  simp [apply, h]

theorem toList_apply_return (h : policy.endingFor source = "\r\n") (text : String) :
    (policy.apply text source).toList = withReturns text.toList := by
  simp [apply, h, withReturns]

theorem apply_of_no_newline (h : '\n' ∉ text.toList) (policy : LineEnding) (source : String) :
    policy.apply text source = text := by
  rcases endingFor_eq policy source with hend | hend
  · exact apply_feed hend
  · apply String.toList_injective
    rw [toList_apply_return hend, withReturns_eq_self h]

/-- A text with `\n` endings is read again from what was written. -/
theorem toUnix_apply (hn : Normal text) (policy : LineEnding) (source : String) :
    toUnix (policy.apply text source) = text := by
  by_cases hfeed : '\n' ∈ text.toList
  · have hr : '\r' ∉ text.toList := fun hr => hn ⟨hr, hfeed⟩
    rcases endingFor_eq policy source with hend | hend
    · rw [apply_feed hend, toUnix_of_normal hn]
    · have hcontains : (withReturns text.toList).contains '\n' = true :=
        List.contains_iff_mem.2 (mem_withReturns_newline.2 hfeed)
      rw [toUnix, toList_apply_return hend, if_pos hcontains, filter_withReturns hr,
        String.ofList_toList]
  · rw [apply_of_no_newline hfeed, toUnix_of_normal hn]

theorem mem_apply_newline : '\n' ∈ (policy.apply text source).toList ↔ '\n' ∈ text.toList := by
  rcases endingFor_eq policy source with hend | hend
  · rw [apply_feed hend]
  · rw [toList_apply_return hend, mem_withReturns_newline]

theorem feedsFollowReturns_apply (hend : policy.endingFor source = "\r\n") (text : String) :
    FeedsFollowReturns (policy.apply text source).toList := by
  rw [toList_apply_return hend]
  exact feedsFollowReturns_withReturns _

/-- Only a `\r` from before the endings were written can stand anywhere but in an ending. -/
theorem apply_carries_ending_iff :
    ((policy.endingFor source = "\n" → '\r' ∉ (policy.apply text source).toList) ∧
      (policy.endingFor source = "\r\n" →
        ReturnsPrecedeFeeds (policy.apply text source).toList)) ↔
      '\r' ∉ text.toList := by
  rcases endingFor_eq policy source with hend | hend
  · rw [apply_feed hend, hend]
    simp
  · rw [toList_apply_return hend, hend, returnsPrecedeFeeds_withReturns]
    simp

theorem predominant_of_normal (hn : Normal text) : predominant text = "\n" := by
  have hnone : countCrLf text.toList = 0 := by
    by_cases hr : '\r' ∈ text.toList
    · exact countCrLf_of_no_newline fun hfeed => hn ⟨hr, hfeed⟩
    · exact countCrLf_of_no_return hr
  rw [predominant, hnone]
  simp

/-- The ending that was written is asked for again. -/
theorem apply_apply (hn : Normal text) (policy : LineEnding) (source : String) :
    policy.apply text (policy.apply text source) = policy.apply text source := by
  by_cases hfeed : '\n' ∈ text.toList
  · have hr : '\r' ∉ text.toList := fun hr => hn ⟨hr, hfeed⟩
    rcases endingFor_eq policy source with hend | hend
    · have hagain : policy.endingFor text = "\n" := by
        cases policy with
        | unix => rfl
        | windows => exact hend
        | platformNative => rfl
        | preserve => exact predominant_of_normal hn
      rw [apply_feed hend, apply_feed hagain]
    · have hlist := toList_apply_return hend text
      have hagain : policy.endingFor (policy.apply text source) = "\r\n" := by
        cases policy with
        | unix => exact hend
        | windows => rfl
        | platformNative => exact hend
        | preserve =>
          show predominant _ = "\r\n"
          have hpos : 0 < text.toList.count '\n' := List.count_pos_iff.2 hfeed
          rw [predominant, hlist, countCrLf_withReturns hr, count_withReturns, if_pos (by omega)]
      apply String.toList_injective
      rw [toList_apply_return hagain, hlist]
  · rw [apply_of_no_newline hfeed, apply_of_no_newline hfeed]

end StableFormat.LineEnding
