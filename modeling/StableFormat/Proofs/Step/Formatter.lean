import StableFormat.Proofs.Orbit.Classification
import StableFormat.Proofs.Step.Layout
import StableFormat.Proofs.Text.LineEnding
import StableFormat.Step.Formatter

/-!
# Proofs: formatters and the endings of lines

A formatter reads a text with `\n` endings, runs its chain and writes the ending of its policy. If the
chain is settled after one run, so is the formatter: what it wrote is read as the chain left it, and
the policy then asks for the ending that is there. Chains of layout steps are settled in this sense,
and what they return has the endings of the policy, as long as no lone `\r` is kept.
-/

namespace StableFormat

open Text

variable {text y : String} {specs : List StepSpec} {width : ℕ}

/-! ## One application is enough -/

namespace Formatter

theorem compute_eq_map (formatter : Formatter) (text : String) :
    formatter.compute text =
      (fun y => formatter.lineEnding.apply y text) <$>
        formatter.chain.apply (LineEnding.toUnix text) := by
  rw [compute, computeTolerating, ← Chain.apply]
  cases formatter.chain.apply (LineEnding.toUnix text) with
  | ok y => rfl
  | error e => rfl

theorem compute_of_apply (formatter : Formatter)
    (h : formatter.chain.apply (LineEnding.toUnix text) = .ok y) :
    formatter.compute text = .ok (formatter.lineEnding.apply y text) := by
  rw [compute_eq_map, h]
  rfl

theorem compute_of_failure (formatter : Formatter) {e : StepError}
    (h : formatter.chain.apply (LineEnding.toUnix text) = .error e) :
    formatter.compute text = .error e := by
  rw [compute_eq_map, h]
  rfl

/-- Probing finds nothing to do after one application, if the chain has nothing to do on the text that
it made. -/
theorem settled_of_apply (formatter : Formatter)
    (hx : formatter.chain.apply (LineEnding.toUnix text) = .ok y)
    (hy : formatter.chain.apply y = .ok y) (hn : LineEnding.Normal y) :
    ∃ result, formatter.compute text = .ok result ∧ formatter.compute result = .ok result ∧
      ∀ bound, ∃ p, probe bound formatter.compute text = .ok p ∧
        p.classification = .wellBehaved ∧ p.safeOutput = result := by
  have hread : formatter.chain.apply (LineEnding.toUnix (formatter.lineEnding.apply y text)) =
      .ok y := by rw [LineEnding.toUnix_apply hn, hy]
  have hfirst := formatter.compute_of_apply hx
  have hagain := formatter.compute_of_apply hread
  rw [LineEnding.apply_apply hn] at hagain
  exact ⟨_, hfirst, hagain, Orbit.probe_of_fixed hfirst hagain⟩

/-- A chain that is settled after one run on every normal text makes a formatter that is, whatever its
line ending: any text, also one with mixed endings, has a result that the formatter leaves as it is.
Probing therefore never finds it misbehaving. -/
theorem compute_settles (formatter : Formatter)
    (hchain : ∀ x, LineEnding.Normal x → ∃ y, formatter.chain.apply x = .ok y ∧
      LineEnding.Normal y ∧ formatter.chain.apply y = .ok y) (text : String) :
    ∃ result, formatter.compute text = .ok result ∧ formatter.compute result = .ok result ∧
      ∀ bound, ∃ p, probe bound formatter.compute text = .ok p ∧
        p.classification = .wellBehaved ∧ p.safeOutput = result := by
  obtain ⟨y, hx, hn, hy⟩ := hchain _ (LineEnding.normal_toUnix text)
  exact formatter.settled_of_apply hx hy hn

/-- Trimming alone, with the endings that most lines have. -/
def trimming : Formatter :=
  ⟨"misc", [.ofFunction "trim-trailing-whitespace" Builtin.trimTrailingBlanks], .preserve⟩

/-- Two of three lines end with `\r\n`; a lone `\r` goes, because the text has line breaks. -/
theorem compute_settles_trimming :
    (∀ x, LineEnding.Normal x → ∃ y, trimming.chain.apply x = .ok y ∧
      LineEnding.Normal y ∧ trimming.chain.apply y = .ok y) ∧
    ∃ p, probe 0 trimming.compute "a \r\nb\rc\t\r\n\n" = .ok p ∧
      p.classification = .wellBehaved ∧ p.safeOutput = "a\r\nbc\r\n\r\n" := by
  have hchain : ∀ x, LineEnding.Normal x → ∃ y, trimming.chain.apply x = .ok y ∧
      LineEnding.Normal y ∧ trimming.chain.apply y = .ok y := by
    intro x hn
    refine ⟨Builtin.trimTrailingBlanks x, rfl, ?_, ?_⟩
    · rw [LineEnding.Normal, toList_trimTrailingBlanks,
        changesBlanks_trim.mem_mapLines_iff (by decide),
        changesBlanks_trim.mem_mapLines_iff isBlank_newline]
      exact hn
    · show Except.ok _ = Except.ok _
      rw [trim_trim]
  obtain ⟨result, hfirst, -, hprobe⟩ := compute_settles trimming hchain "a \r\nb\rc\t\r\n\n"
  have hresult : trimming.compute "a \r\nb\rc\t\r\n\n" = .ok "a\r\nbc\r\n\r\n" := by cbv
  obtain rfl := Except.ok.inj (hfirst.symm.trans hresult)
  exact ⟨hchain, hprobe 0⟩

end Formatter

/-! ## Lone returns in chains of layout steps -/

/-- What becomes of the `\r` in a text when it is laid out. They are white space, so those at the end
of the text may go; of the others none is lost. -/
structure ReturnsKept (source text : String) : Prop where
  inside : '\r' ∈ dropTrailing isWhiteSpace text.toList ↔
    '\r' ∈ dropTrailing isWhiteSpace source.toList
  with_newline : '\n' ∈ text.toList →
    ('\r' ∈ text.toList ↔ '\r' ∈ dropTrailing isWhiteSpace source.toList)

namespace ReturnsKept

variable {source : String} {spec : StepSpec}

theorem start (hn : LineEnding.Normal text) : ReturnsKept text text where
  inside := Iff.rfl
  with_newline hfeed := by
    have hnone : '\r' ∉ text.toList := fun hr => hn ⟨hr, hfeed⟩
    have hnone' : '\r' ∉ dropTrailing isWhiteSpace text.toList :=
      mt mem_of_mem_dropTrailing hnone
    simp [hnone, hnone']

theorem step (h : ReturnsKept source text) (hspec : spec.LaysOut width) :
    ReturnsKept source (spec.layOut text) := by
  rcases StepSpec.layOut_cases hspec with ⟨g, hg, hlines⟩ | hends
  · have hreturn : isBlank '\r' = false := by decide
    constructor
    · rw [hlines, hg.keepsEnd.dropTrailing_mapLines isWhiteSpace_newline,
        hg.mem_mapLines_iff hreturn]
      exact h.inside
    · rw [hlines, hg.mem_mapLines_iff isBlank_newline, hg.mem_mapLines_iff hreturn]
      exact h.with_newline
  · constructor
    · rw [hends, dropTrailing_settledEnd]
      exact h.inside
    · intro _
      rw [hends, ← h.inside]
      simp

theorem run (h : ReturnsKept source text)
    (hspecs : ∀ spec ∈ specs, ∃ width, spec.LaysOut width) :
    ReturnsKept source (StepSpec.layOutAll specs text) := by
  induction specs generalizing text with
  | nil => exact h
  | cons spec rest ih =>
    obtain ⟨width, hspec⟩ := hspecs spec List.mem_cons_self
    exact ih (h.step hspec) fun s hs => hspecs s (List.mem_cons_of_mem _ hs)

end ReturnsKept

/-- Reading leaves a `\r` before the white space at the end only to a text that has no `\n`. -/
theorem return_inside_toUnix_iff :
    '\r' ∉ dropTrailing isWhiteSpace (LineEnding.toUnix text).toList ↔
      '\n' ∈ text.toList ∨ '\r' ∉ dropTrailing isWhiteSpace text.toList := by
  by_cases hfeed : '\n' ∈ text.toList
  · have hnone : '\r' ∉ (LineEnding.toUnix text).toList := by
      rw [LineEnding.mem_toUnix_return]
      exact fun h => h.2 hfeed
    have hnone' : '\r' ∉ dropTrailing isWhiteSpace (LineEnding.toUnix text).toList :=
      mt mem_of_mem_dropTrailing hnone
    simp [hfeed, hnone']
  · have hsame : LineEnding.toUnix text = text :=
      LineEnding.toUnix_of_normal fun h => hfeed h.2
    rw [hsame]
    simp [hfeed]

namespace Formatter

/-! ## What a chain of layout steps gives -/

/-- Chains of layout steps are well-behaved wherever their numbers stay in range, whichever steps they
have, in which order and how often, as long as their tab stops agree: what such a chain makes of a
text with line breaks, or of one without any `\r`, is left as it is from then on, under every policy
for line endings. The numbers stay in range if no line starts at a column of more than 63 bits. Where
they do not, the chain has no result, the failure is not one that can be tolerated, and probing ends
with it as well. -/
theorem layout_settles (name : String) (policy : LineEnding)
    (hspecs : ∀ spec ∈ specs, spec.LaysOut width) (text : String)
    (htext : '\n' ∈ text.toList ∨ '\r' ∉ text.toList) :
    ∃ chain, specs.mapM StepSpec.build = .ok chain ∧
      (StepSpec.AllInRange specs (LineEnding.toUnix text) →
        ∃ result, compute ⟨name, chain, policy⟩ text = .ok result ∧
          compute ⟨name, chain, policy⟩ result = .ok result ∧
          ∀ bound, ∃ p, probe bound (compute ⟨name, chain, policy⟩) text = .ok p ∧
            p.classification = .wellBehaved ∧ p.safeOutput = result) ∧
      (¬ StepSpec.AllInRange specs (LineEnding.toUnix text) →
        ∃ e, e.cause.isRefusal = false ∧ compute ⟨name, chain, policy⟩ text = .error e ∧
          ∀ bound, probe bound (compute ⟨name, chain, policy⟩) text = .error e) ∧
      ((∀ column ∈ startColumns width (LineEnding.toUnix text), column < 2 ^ 63) →
        StepSpec.AllInRange specs (LineEnding.toUnix text)) := by
  have hwidths : ∀ spec ∈ specs, ∃ width, spec.LaysOut width :=
    fun spec hspec => ⟨width, hspecs spec hspec⟩
  obtain ⟨chain, hbuild, hruns⟩ := StepSpec.mapM_build hwidths
  have happly : ∀ source result, Chain.apply chain source = .ok result ↔
      StepSpec.AllInRange specs source ∧ result = StepSpec.layOutAll specs source :=
    fun source => (hruns _ source).1
  refine ⟨chain, hbuild, fun hrange => ?_, fun hrange => ?_, StepSpec.allInRange_of_lt hspecs⟩
  · have hkept := (ReturnsKept.start (LineEnding.normal_toUnix text)).run hwidths
    have hinside : '\r' ∉ dropTrailing isWhiteSpace (LineEnding.toUnix text).toList := by
      rw [return_inside_toUnix_iff]
      exact htext.imp_right (mt mem_of_mem_dropTrailing)
    have hn : LineEnding.Normal (StepSpec.layOutAll specs (LineEnding.toUnix text)) := by
      rintro ⟨hr, hfeed⟩
      exact hinside ((hkept.with_newline hfeed).1 hr)
    -- the result starts its lines where the text did, so the second run is in range as well
    have hagain : Chain.apply chain (StepSpec.layOutAll specs (LineEnding.toUnix text)) =
        .ok (StepSpec.layOutAll specs (LineEnding.toUnix text)) :=
      (happly _ _).2 ⟨hrange.of_startsWithin hspecs (.refl width _),
        (StepSpec.layOutAll_after hspecs (List.Subset.refl _) _).symm⟩
    exact settled_of_apply ⟨name, chain, policy⟩ ((happly _ _).2 ⟨hrange, rfl⟩) hagain hn
  · cases hrun : Chain.apply chain (LineEnding.toUnix text) with
    | ok y => exact absurd ((happly _ _).1 hrun).1 hrange
    | error e =>
      have hfailed := compute_of_failure ⟨name, chain, policy⟩ hrun
      refine ⟨e, (hruns _ _).2 e hrun, hfailed, fun bound => ?_⟩
      rw [probe, Orbit.probeCounted_error hfailed]

/-- Steps of all kinds, one of them twice, of which the two that indent do not trade places. -/
def mixedLayout : List StepSpec :=
  [.indent .spaces 0, .endWithNewline, .trimTrailingWhitespace, .indent .tabs 1, .endWithNewline]

theorem layout_settles_mixed :
    (∀ spec ∈ mixedLayout, spec.LaysOut 1) ∧
    StepSpec.AllInRange mixedLayout (LineEnding.toUnix "  \r\n \tb\u2003c \u2003\r\n\n ") ∧
    ∃ chain p, mixedLayout.mapM StepSpec.build = .ok chain ∧
      probe 0 (compute ⟨"misc", chain, .windows⟩) "  \r\n \tb\u2003c \u2003\r\n\n " = .ok p ∧
      p.classification = .wellBehaved ∧ p.safeOutput = "\r\n\t\tb\u2003c\r\n" := by
  have hspecs : ∀ spec ∈ mixedLayout, spec.LaysOut 1 := by
    simp [mixedLayout, StepSpec.LaysOut]
  obtain ⟨chain, hbuild, hsettles, -, hsmall⟩ :=
    layout_settles "misc" .windows hspecs "  \r\n \tb\u2003c \u2003\r\n\n " (by decide)
  have hcolumns : startColumns 1 (LineEnding.toUnix "  \r\n \tb\u2003c \u2003\r\n\n ") =
      [2, 2, 0, 1] := by cbv
  have hrange := hsmall (by rw [hcolumns]; decide)
  obtain ⟨result, hfirst, -, hprobe⟩ := hsettles hrange
  obtain rfl := Except.ok.inj hbuild
  have hresult : result = "\r\n\t\tb\u2003c\r\n" := Except.ok.inj (hfirst.symm.trans (by cbv))
  subst hresult
  obtain ⟨p, hp⟩ := hprobe 0
  exact ⟨hspecs, hrange, _, p, hbuild, hp⟩

/-- With tab stops this far apart, the second tab leads to a column that no text has room for. -/
theorem layout_out_of_range :
    ∃ chain, [StepSpec.trimTrailingWhitespace, .indent .spaces (2 ^ 63 - 1)].mapM StepSpec.build =
        .ok chain ∧
      probe 0 (compute ⟨"misc", chain, .unix⟩) "\t\tx \n" =
        .error ⟨"indent", .stray (.capacity (2 ^ 64 - 2))⟩ :=
  ⟨_, rfl, by cbv⟩

/-- Where a chain of layout steps returns line breaks, they are those of the policy: with `\r\n`, no
`\n` is without its `\r`. A `\r` that is no part of an ending is returned exactly if the text had no
`\n` at all and a `\r` before the white space at its end; reading leaves such a text as it is. -/
theorem layout_carries_endings (name : String) (policy : LineEnding)
    (hspecs : ∀ spec ∈ specs, ∃ width, spec.LaysOut width) (text : String) :
    ∃ chain, specs.mapM StepSpec.build = .ok chain ∧
      ((∃ result, compute ⟨name, chain, policy⟩ text = .ok result) ↔
        StepSpec.AllInRange specs (LineEnding.toUnix text)) ∧
      ∀ result, compute ⟨name, chain, policy⟩ text = .ok result → '\n' ∈ result.toList →
        (policy.endingFor text = "\r\n" → LineEnding.FeedsFollowReturns result.toList) ∧
        (((policy.endingFor text = "\n" → '\r' ∉ result.toList) ∧
            (policy.endingFor text = "\r\n" → LineEnding.ReturnsPrecedeFeeds result.toList)) ↔
          '\n' ∈ text.toList ∨ '\r' ∉ dropTrailing isWhiteSpace text.toList) := by
  obtain ⟨chain, hbuild, hruns⟩ := StepSpec.mapM_build hspecs
  have hcompute : ∀ result, compute ⟨name, chain, policy⟩ text = .ok result ↔
      StepSpec.AllInRange specs (LineEnding.toUnix text) ∧
        policy.apply (StepSpec.layOutAll specs (LineEnding.toUnix text)) text = result := by
    intro result
    rw [compute_eq_map, map_eq_ok]
    simp only [Chain.apply, (hruns _ _).1, and_assoc, exists_and_left, exists_eq_left]
  have hkept := (ReturnsKept.start (LineEnding.normal_toUnix text)).run hspecs
  refine ⟨chain, hbuild, ?_, ?_⟩
  · simp only [hcompute, exists_and_left, exists_eq', and_true]
  · intro result hresult hfeed
    obtain ⟨-, rfl⟩ := (hcompute result).1 hresult
    refine ⟨fun hend => LineEnding.feedsFollowReturns_apply hend _, ?_⟩
    rw [LineEnding.mem_apply_newline] at hfeed
    rw [LineEnding.apply_carries_ending_iff, hkept.with_newline hfeed, return_inside_toUnix_iff]

/-- Most lines of the text end with `\r\n`, and so do all lines of the result, whatever the indentation
is made of. -/
theorem layout_carries_endings_mixed :
    (∀ spec ∈ [.indent .tabs 4, .indent .spaces 2, .endWithNewline],
      ∃ width, StepSpec.LaysOut width spec) ∧
    ∃ chain, [StepSpec.indent .tabs 4, .indent .spaces 2, .endWithNewline].mapM StepSpec.build =
        .ok chain ∧
      compute ⟨"misc", chain, .preserve⟩ "\tx\r\ny \r\n\nz" = .ok "  x\r\ny \r\n\r\nz\r\n" ∧
      LineEnding.FeedsFollowReturns "  x\r\ny \r\n\r\nz\r\n".toList ∧
      LineEnding.ReturnsPrecedeFeeds "  x\r\ny \r\n\r\nz\r\n".toList := by
  have hspecs : ∀ spec ∈ [.indent .tabs 4, .indent .spaces 2, .endWithNewline],
      ∃ width, StepSpec.LaysOut width spec := by
    simp [StepSpec.LaysOut]
  obtain ⟨chain, hchain, hresult⟩ : ∃ chain,
      [StepSpec.indent .tabs 4, .indent .spaces 2, .endWithNewline].mapM StepSpec.build =
        .ok chain ∧
      compute ⟨"misc", chain, .preserve⟩ "\tx\r\ny \r\n\nz" = .ok "  x\r\ny \r\n\r\nz\r\n" :=
    ⟨_, rfl, by cbv⟩
  obtain ⟨chain, hbuild, -, hends⟩ :=
    layout_carries_endings "misc" .preserve hspecs "\tx\r\ny \r\n\nz"
  obtain rfl := Except.ok.inj (hchain.symm.trans hbuild)
  obtain ⟨hfollow, hcarries⟩ := hends _ hresult (by decide)
  have hending : LineEnding.preserve.endingFor "\tx\r\ny \r\n\nz" = "\r\n" := by cbv
  exact ⟨hspecs, _, hchain, hresult, hfollow hending,
    (hcarries.2 (Or.inl (by decide))).2 hending⟩

/-- The only line break of this text is a lone `\r`. Reading leaves it, and the step that puts the
first `\n` behind it does not know of it: the result has both. -/
theorem layout_keeps_lone_return :
    ∃ chain, [StepSpec.endWithNewline].mapM StepSpec.build = .ok chain ∧
      compute ⟨"misc", chain, .unix⟩ "a\rb" = .ok "a\rb\n" ∧
      LineEnding.unix.endingFor "a\rb" = "\n" ∧
      '\n' ∈ "a\rb\n".toList ∧ '\r' ∈ "a\rb\n".toList :=
  ⟨_, rfl, by cbv, rfl, by decide, by decide⟩

end Formatter

end StableFormat
