import Mathlib.Data.List.Forall2
import Mathlib.Data.List.Nodup
import StableFormat.Proofs.Report.Tiers

/-!
# Proofs: the tiers of a report as violations grow

Whether a file has a section depends on the files before it: on their number, and on the lines that
all of them would take if there were room. More files and longer bodies can only make both grow, so
they never get another file a better tier or more of its lines shown; nor does less room.
-/

namespace StableFormat

/-- The tier of a file in a layout. -/
inductive Tier where
  | shown
  | named
  | counted
  deriving DecidableEq, Repr

/-- The best tier has the lowest rank. -/
def Tier.rank : Tier → ℕ
  | shown => 0
  | named => 1
  | counted => 2

/-- The first limits leave no more room than the second ones. -/
structure ReportLimits.Within (limits limits' : ReportLimits) : Prop where
  lines : limits.maxMessageLines ≤ limits'.maxMessageLines
  files : limits.maxFilesToList ≤ limits'.maxFilesToList

namespace ReportLimits.Within

variable {limits limits' : ReportLimits} {used shown : ℕ}

theorem refl (limits : ReportLimits) : limits.Within limits :=
  ⟨le_rfl, le_rfl⟩

theorem haveRoom (h : limits.Within limits') (hroom : limits.haveRoom used shown = true) :
    limits'.haveRoom used shown = true := by
  rw [haveRoom_iff] at hroom ⊢
  exact ⟨hroom.1.trans_le h.lines, hroom.2.trans_le h.files⟩

end ReportLimits.Within

namespace Layout

def sectionOf? (l : Layout) (path : String) : Option Section :=
  l.sections.find? (·.path = path)

/-- The tier of a path of the report. -/
def tier (l : Layout) (path : String) : Tier :=
  if (l.sectionOf? path).isSome then .shown else if path ∈ l.named then .named else .counted

/-- The number of body lines that are shown of a path. -/
def linesShown (l : Layout) (path : String) : ℕ :=
  ((l.sectionOf? path).map (·.body.length)).getD 0

variable {limits limits' : ReportLimits} {path : String} {lines : List String}
  {bodies bodies' : List (String × List String)}

/-! ## More files and longer bodies -/

/-- The room that files would use if there were enough for all of them. -/
def demand : List (String × List String) → ℕ
  | [] => 0
  | b :: rest => 1 + b.2.length + demand rest

theorem demand_concat (bodies : List (String × List String)) (b : String × List String) :
    demand (bodies ++ [b]) = demand bodies + (1 + b.2.length) := by
  induction bodies with
  | nil => simp [demand]
  | cons first rest ih =>
    simp only [List.cons_append, demand, ih]
    omega

def before (path : String) (bodies : List (String × List String)) : List (String × List String) :=
  bodies.filter (·.1 < path)

/-- Files and others among which the same ones have bodies that are no shorter. -/
def Outgrown (bodies bodies' : List (String × List String)) : Prop :=
  List.SublistForall₂ (fun b b' => b.1 = b'.1 ∧ b.2.length ≤ b'.2.length) bodies bodies'

namespace Outgrown

theorem refl (bodies : List (String × List String)) : Outgrown bodies bodies := by
  induction bodies with
  | nil => exact .nil
  | cons b rest ih => exact .cons ⟨rfl, le_rfl⟩ ih

theorem of_sublist (h : bodies.Sublist bodies') : Outgrown bodies bodies' := by
  induction h with
  | slnil => exact .nil
  | cons b _ ih => exact .cons_right ih
  | cons_cons b _ ih => exact .cons ⟨rfl, le_rfl⟩ ih

theorem demand_le (h : Outgrown bodies bodies') : demand bodies ≤ demand bodies' := by
  induction h with
  | nil => exact Nat.zero_le _
  | cons hb _ ih =>
    have hlength := hb.2
    rw [demand, demand]
    omega
  | cons_right _ ih =>
    rw [demand]
    omega

theorem length_le (h : Outgrown bodies bodies') : bodies.length ≤ bodies'.length := by
  induction h with
  | nil => exact Nat.zero_le _
  | cons _ _ ih =>
    rw [List.length_cons, List.length_cons]
    exact Nat.succ_le_succ ih
  | cons_right _ ih => exact Nat.le_succ_of_le ih

/-- A selection by paths that takes no less keeps the relation. -/
theorem filter (h : Outgrown bodies bodies') {keep keep' : String → Bool}
    (hkeep : ∀ path, keep path = true → keep' path = true) :
    Outgrown (bodies.filter (keep ·.1)) (bodies'.filter (keep' ·.1)) := by
  induction h with
  | nil => exact .nil
  | @cons b b' _ _ hb _ ih =>
    cases hk : keep b.1 with
    | true =>
      have hk' : keep' b'.1 = true := hkeep b'.1 (hb.1 ▸ hk)
      rw [List.filter_cons, List.filter_cons, hk, hk', if_pos rfl, if_pos rfl]
      exact .cons hb ih
    | false =>
      rw [List.filter_cons, List.filter_cons, hk, if_neg Bool.false_ne_true]
      split
      · exact .cons_right ih
      · exact ih
  | cons_right _ ih =>
    rw [List.filter_cons]
    split
    · exact .cons_right ih
    · exact ih

theorem before (h : Outgrown bodies bodies') (path : String) :
    Outgrown (before path bodies) (before path bodies') := by
  have hsame : ∀ p : String, decide (p < path) = true → decide (p < path) = true := fun _ hp => hp
  exact h.filter hsame

end Outgrown

/-! ## The tiers by the files before a path -/

def roomAt (limits : ReportLimits) (bodies : List (String × List String)) (path : String) : Bool :=
  limits.haveRoom (demand (before path bodies)) (before path bodies).length

/-- The section of a file, provided that there is room for it. -/
def sectionAt (limits : ReportLimits) (bodies : List (String × List String))
    (b : String × List String) : Section :=
  .fitted limits (demand (before b.1 bodies)) b.1 b.2

def unshown (limits : ReportLimits) (bodies : List (String × List String)) : List String :=
  (bodies.filter fun b => !roomAt limits bodies b.1).map (·.1)

theorem haveRoom_of_le {used used' shown shown' : ℕ} (hused : used ≤ used')
    (hshown : shown ≤ shown') (h : limits.haveRoom used' shown' = true) :
    limits.haveRoom used shown = true := by
  rw [haveRoom_iff] at h ⊢
  omega

theorem before_append {pre suf : List (String × List String)}
    (hsorted : ((pre ++ (path, lines) :: suf).map (·.1)).Pairwise (· < ·)) :
    before path (pre ++ (path, lines) :: suf) = pre := by
  rw [List.pairwise_map, List.pairwise_append, List.pairwise_cons] at hsorted
  obtain ⟨-, ⟨hsuf, -⟩, hpre⟩ := hsorted
  rw [before, List.filter_append, List.filter_cons_of_neg (by simp)]
  have hkept : pre.filter (·.1 < path) = pre :=
    List.filter_eq_self.2 fun b hb => decide_eq_true (hpre b hb _ List.mem_cons_self)
  have hdropped : suf.filter (·.1 < path) = [] :=
    List.filter_eq_nil_iff.2 fun b hb => by
      rw [decide_eq_true_iff]
      exact String.lt_asymm (hsuf b hb)
  rw [hkept, hdropped, List.append_nil]

theorem roomAt_eq_false {pre suf : List (String × List String)}
    (hfull : limits.haveRoom (demand pre) pre.length = false)
    (hsorted : ((pre ++ suf).map (·.1)).Pairwise (· < ·)) :
    ∀ b ∈ suf, roomAt limits (pre ++ suf) b.1 = false := by
  intro b hb
  -- All of `pre` stands before `b`, so no less is demanded there.
  have hpre : Outgrown pre (before b.1 (pre ++ suf)) := by
    have hkept : pre.filter (·.1 < b.1) = pre := by
      rw [List.pairwise_map, List.pairwise_append] at hsorted
      exact List.filter_eq_self.2 fun a ha => decide_eq_true (hsorted.2.2 a ha b hb)
    refine .of_sublist ?_
    rw [before, List.filter_append, hkept]
    exact List.sublist_append_left _ _
  rw [Bool.eq_false_iff] at hfull ⊢
  intro hat
  exact hfull (haveRoom_of_le hpre.demand_le hpre.length_le hat)

/-- Behind the files `pre`, each of the others is placed by what the files before it demand. -/
theorem tiers_after (limits : ReportLimits) (pre suf : List (String × List String))
    (hsorted : ((pre ++ suf).map (·.1)).Pairwise (· < ·)) :
    tiers limits (min limits.maxMessageLines (demand pre)) pre.length suf =
      ((suf.filter fun b => roomAt limits (pre ++ suf) b.1).map (sectionAt limits (pre ++ suf)),
        (suf.filter fun b => !roomAt limits (pre ++ suf) b.1).map (·.1)) := by
  induction suf generalizing pre with
  | nil => rfl
  | cons b rest ih =>
    obtain ⟨path, lines⟩ := b
    have hbefore := before_append hsorted
    cases hroom : limits.haveRoom (demand pre) pre.length with
    | true =>
      have hat : roomAt limits (pre ++ (path, lines) :: rest) path = true := by
        rw [roomAt, hbefore, hroom]
      have hsection : sectionAt limits (pre ++ (path, lines) :: rest) (path, lines) =
          .fitted limits (demand pre) path lines := by rw [sectionAt, hbefore]
      have hused := (haveRoom_iff.1 hroom).1
      have hnext : demand pre + 1 + (Section.fitted limits (demand pre) path lines).body.length =
          min limits.maxMessageLines (demand (pre ++ [(path, lines)])) := by
        simp only [Section.length_fitted, demand_concat]
        omega
      have hrest := ih (pre ++ [(path, lines)]) (by simpa using hsorted)
      rw [List.append_assoc, List.singleton_append, List.length_append, List.length_singleton]
        at hrest
      rw [Nat.min_eq_right hused.le, tiers_room hroom, hnext, hrest, List.filter_cons,
        List.filter_cons, hat, if_pos rfl, if_neg (by simp), List.map_cons, hsection]
    | false =>
      have hnone := roomAt_eq_false hroom hsorted
      have hfull : limits.haveRoom (min limits.maxMessageLines (demand pre)) pre.length = false := by
        rw [Bool.eq_false_iff, Ne, haveRoom_iff] at hroom ⊢
        omega
      have hnoSection : ((path, lines) :: rest).filter
          (fun b => roomAt limits (pre ++ (path, lines) :: rest) b.1) = [] :=
        List.filter_eq_nil_iff.2 fun b hb => by rw [hnone b hb]; exact Bool.false_ne_true
      have hremain : ((path, lines) :: rest).filter
          (fun b => !roomAt limits (pre ++ (path, lines) :: rest) b.1) = (path, lines) :: rest :=
        List.filter_eq_self.2 fun b hb => by rw [hnone b hb]; rfl
      rw [tiers_full hfull, hnoSection, hremain, List.map_nil]

/-- A file gets a section exactly if there is room for it behind all the files before it. -/
theorem tiers_eq (hsorted : (bodies.map (·.1)).Pairwise (· < ·)) :
    tiers limits 0 0 bodies =
      ((bodies.filter fun b => roomAt limits bodies b.1).map (sectionAt limits bodies),
        unshown limits bodies) := by
  have hafter := tiers_after limits [] bodies hsorted
  rw [demand, Nat.min_zero] at hafter
  exact hafter

/-! ## One path of a layout -/

theorem sectionOf?_ofBodies (hsorted : (bodies.map (·.1)).Pairwise (· < ·))
    (hmem : (path, lines) ∈ bodies) :
    (ofBodies limits bodies).sectionOf? path =
      if roomAt limits bodies path then some (sectionAt limits bodies (path, lines)) else none := by
  have hsections : (ofBodies limits bodies).sections =
      (bodies.filter fun b => roomAt limits bodies b.1).map (sectionAt limits bodies) := by
    rw [ofBodies, ofTiers, tiers_eq hsorted]
    split <;> rfl
  have hunique {b : String × List String} (hb : b ∈ bodies) (hpath : b.1 = path) :
      b = (path, lines) := List.inj_on_of_nodup_map hsorted.nodup hb hmem hpath
  rw [sectionOf?, hsections]
  split
  · next hroom =>
    have hsection : sectionAt limits bodies (path, lines) ∈
        (bodies.filter fun b => roomAt limits bodies b.1).map (sectionAt limits bodies) :=
      List.mem_map_of_mem (List.mem_filter.2 ⟨hmem, hroom⟩)
    cases hfind : ((bodies.filter fun b => roomAt limits bodies b.1).map
        (sectionAt limits bodies)).find? (·.path = path) with
    | none => exact absurd (decide_eq_true rfl) (List.find?_eq_none.1 hfind _ hsection)
    | some s =>
      obtain ⟨b, hb, rfl⟩ := List.mem_map.1 (List.mem_of_find?_eq_some hfind)
      have hpath : decide ((sectionAt limits bodies b).path = path) = true := by
        simpa using List.find?_some hfind
      rw [hunique (List.mem_filter.1 hb).1 (of_decide_eq_true hpath)]
  · next hroom =>
    rw [List.find?_eq_none]
    intro s hs hpath
    obtain ⟨b, hb, rfl⟩ := List.mem_map.1 hs
    obtain ⟨hb, hroom'⟩ := List.mem_filter.1 hb
    rw [hunique hb (of_decide_eq_true hpath)] at hroom'
    exact hroom hroom'

theorem linesShown_ofBodies (hsorted : (bodies.map (·.1)).Pairwise (· < ·))
    (hmem : (path, lines) ∈ bodies) :
    (ofBodies limits bodies).linesShown path =
      if roomAt limits bodies path then
        min lines.length (limits.maxMessageLines - (demand (before path bodies) + 1))
      else 0 := by
  rw [linesShown, sectionOf?_ofBodies hsorted hmem]
  split
  · rw [Option.map_some, Option.getD_some, sectionAt, Section.length_fitted]
  · rfl

theorem tier_ofBodies (hsorted : (bodies.map (·.1)).Pairwise (· < ·))
    (hmem : (path, lines) ∈ bodies) :
    (ofBodies limits bodies).tier path =
      if roomAt limits bodies path then .shown
      else if limits.maxFilesToList ≤ (unshown limits bodies).length then .counted
      else .named := by
  rw [tier, sectionOf?_ofBodies hsorted hmem]
  cases hroom : roomAt limits bodies path with
  | true => rfl
  | false =>
    have hunshown : path ∈ unshown limits bodies :=
      List.mem_map.2 ⟨(path, lines), List.mem_filter.2 ⟨hmem, by rw [hroom]; rfl⟩, rfl⟩
    rw [if_neg Bool.false_ne_true, if_neg Bool.false_ne_true, if_neg (by simp), ofBodies, ofTiers,
      tiers_eq hsorted]
    by_cases hmany : limits.maxFilesToList ≤ (unshown limits bodies).length
    · rw [if_pos hmany, if_pos hmany]
      exact if_neg List.not_mem_nil
    · rw [if_neg hmany, if_neg hmany]
      exact if_pos hunshown

/-! ## More demand, or less room -/

theorem Outgrown.roomAt (h : Outgrown bodies bodies') (hlimits : limits'.Within limits)
    (hroom : roomAt limits' bodies' path = true) : roomAt limits bodies path = true :=
  haveRoom_of_le (h.before path).demand_le (h.before path).length_le (hlimits.haveRoom hroom)

theorem Outgrown.length_unshown (h : Outgrown bodies bodies') (hlimits : limits'.Within limits) :
    (unshown limits bodies).length ≤ (unshown limits' bodies').length := by
  have hkeep : ∀ path, (!Layout.roomAt limits bodies path) = true →
      (!Layout.roomAt limits' bodies' path) = true := by
    intro path hnot
    rw [Bool.not_eq_true'] at hnot ⊢
    rw [Bool.eq_false_iff] at hnot ⊢
    exact fun hroom => hnot (h.roomAt hlimits hroom)
  have hlength := (h.filter hkeep).length_le
  rw [unshown, unshown, List.length_map, List.length_map]
  exact hlength

/-- Where more is demanded of no more room, no file that both have gets to a better tier. -/
theorem Outgrown.rank_tier_le_within (h : Outgrown bodies bodies')
    (hlimits : limits'.Within limits) (hsorted : (bodies.map (·.1)).Pairwise (· < ·))
    (hsorted' : (bodies'.map (·.1)).Pairwise (· < ·)) {lines' : List String}
    (hmem : (path, lines) ∈ bodies) (hmem' : (path, lines') ∈ bodies') :
    ((ofBodies limits bodies).tier path).rank ≤ ((ofBodies limits' bodies').tier path).rank := by
  rw [tier_ofBodies hsorted hmem, tier_ofBodies hsorted' hmem']
  have hunshown := h.length_unshown hlimits
  cases hroom : Layout.roomAt limits bodies path with
  | true => exact Nat.zero_le _
  | false =>
    have hroom' : Layout.roomAt limits' bodies' path = false := by
      rw [Bool.eq_false_iff] at hroom ⊢
      exact fun hroom' => hroom (h.roomAt hlimits hroom')
    rw [hroom', if_neg Bool.false_ne_true, if_neg Bool.false_ne_true]
    split
    · next hmany => rw [if_pos (hlimits.files.trans (hmany.trans hunshown))]
    · split
      · exact Nat.le_succ 1
      · exact le_rfl

/-- Where more is demanded of no more room, no more lines are shown of the same body. -/
theorem Outgrown.linesShown_le_within (h : Outgrown bodies bodies')
    (hlimits : limits'.Within limits) (hsorted : (bodies.map (·.1)).Pairwise (· < ·))
    (hsorted' : (bodies'.map (·.1)).Pairwise (· < ·)) (hmem : (path, lines) ∈ bodies)
    (hmem' : (path, lines) ∈ bodies') :
    (ofBodies limits' bodies').linesShown path ≤ (ofBodies limits bodies).linesShown path := by
  rw [linesShown_ofBodies hsorted hmem, linesShown_ofBodies hsorted' hmem']
  have hdemand := (h.before path).demand_le
  have hlines := hlimits.lines
  cases hroom' : Layout.roomAt limits' bodies' path with
  | true =>
    rw [h.roomAt hlimits hroom', if_pos rfl, if_pos rfl]
    omega
  | false =>
    rw [if_neg Bool.false_ne_true]
    exact Nat.zero_le _

theorem Outgrown.rank_tier_le (h : Outgrown bodies bodies')
    (hsorted : (bodies.map (·.1)).Pairwise (· < ·))
    (hsorted' : (bodies'.map (·.1)).Pairwise (· < ·)) {lines' : List String}
    (hmem : (path, lines) ∈ bodies) (hmem' : (path, lines') ∈ bodies') :
    ((ofBodies limits bodies).tier path).rank ≤ ((ofBodies limits bodies').tier path).rank :=
  h.rank_tier_le_within (.refl limits) hsorted hsorted' hmem hmem'

theorem Outgrown.linesShown_le (h : Outgrown bodies bodies')
    (hsorted : (bodies.map (·.1)).Pairwise (· < ·))
    (hsorted' : (bodies'.map (·.1)).Pairwise (· < ·)) (hmem : (path, lines) ∈ bodies)
    (hmem' : (path, lines) ∈ bodies') :
    (ofBodies limits bodies').linesShown path ≤ (ofBodies limits bodies).linesShown path :=
  h.linesShown_le_within (.refl limits) hsorted hsorted' hmem hmem'

end Layout

/-! ## One more or one longer entry -/

namespace ReportEntries

/-- An insertion makes the bodies outgrow the old ones, unless it shortens one. -/
theorem outgrown_insert {path : String} {entry : ReportEntry} {glyphs : Glyphs}
    {entries : ReportEntries}
    (h : ∀ old, (path, old) ∈ entries →
      (bodyLines (old.body glyphs)).length ≤ (bodyLines (entry.body glyphs)).length) :
    Layout.Outgrown (entries.bodies glyphs) (bodies glyphs (insert path entry entries)) := by
  induction entries with
  | nil => exact .nil
  | cons head rest ih =>
    obtain ⟨p, e⟩ := head
    rw [insert]
    split
    · exact .cons_right (Layout.Outgrown.refl _)
    · split
      · next heq =>
        subst heq
        exact .cons ⟨rfl, h e List.mem_cons_self⟩ (Layout.Outgrown.refl _)
      · exact .cons ⟨rfl, le_rfl⟩ (ih fun old hold => h old (List.mem_cons_of_mem _ hold))

theorem mem_bodies {path : String} {entry : ReportEntry} {entries : ReportEntries}
    (glyphs : Glyphs) (h : (path, entry) ∈ entries) :
    (path, bodyLines (entry.body glyphs)) ∈ entries.bodies glyphs :=
  List.mem_map.2 ⟨_, h, rfl⟩

theorem bodies_sorted {entries : ReportEntries} (glyphs : Glyphs)
    (h : entries.paths.Pairwise (· < ·)) :
    ((entries.bodies glyphs).map (·.1)).Pairwise (· < ·) := by
  rw [bodies, List.map_map]
  exact h

end ReportEntries

namespace DiffReport

/-- As violations grow, the others are listed no better. When an entry is added under a new path, or
put in place of one with at most as many lines, no path of the report gets to a better tier, and of
no other path more lines are shown. -/
theorem insert_degrades (r : DiffReport) (path : String) (entry : ReportEntry)
    (h : path ∉ r.paths ∨ ∃ old, (path, old) ∈ r.entries ∧
      (bodyLines (old.body r.glyphs)).length ≤ (bodyLines (entry.body r.glyphs)).length) :
    ∀ p ∈ r.paths,
      (r.layout.tier p).rank ≤ ((r.insert path entry).layout.tier p).rank ∧
      (p ≠ path → (r.insert path entry).layout.linesShown p ≤ r.layout.linesShown p) := by
  intro p hp
  have hlonger : ∀ old, (path, old) ∈ r.entries →
      (bodyLines (old.body r.glyphs)).length ≤ (bodyLines (entry.body r.glyphs)).length := by
    intro old hold
    rcases h with hnew | ⟨old', hold', hle⟩
    · exact absurd (List.mem_map_of_mem hold) hnew
    · have hsame := List.inj_on_of_nodup_map r.sorted.nodup hold hold' rfl
      rw [(Prod.mk.inj hsame).2]
      exact hle
  have hgrown := ReportEntries.outgrown_insert hlonger
  have hsorted := ReportEntries.bodies_sorted r.glyphs r.sorted
  have hsorted' := ReportEntries.bodies_sorted r.glyphs (r.insert path entry).sorted
  obtain ⟨⟨p, e⟩, he, rfl⟩ := List.mem_map.1 hp
  have hbefore := ReportEntries.mem_bodies r.glyphs he
  rw [layout_eq_ofBodies, layout_eq_ofBodies]
  by_cases hpath : p = path
  · subst hpath
    have hafter : (p, entry) ∈ (r.insert p entry).entries :=
      (ReportEntries.mem_insert r.sorted).2 (Or.inl rfl)
    exact ⟨hgrown.rank_tier_le hsorted hsorted' hbefore (ReportEntries.mem_bodies r.glyphs hafter),
      fun hne => absurd rfl hne⟩
  · have hafter : (p, e) ∈ (r.insert path entry).entries :=
      (ReportEntries.mem_insert r.sorted).2 (Or.inr ⟨he, hpath⟩)
    have hbefore' := ReportEntries.mem_bodies r.glyphs hafter
    exact ⟨hgrown.rank_tier_le hsorted hsorted' hbefore hbefore',
      fun _ => hgrown.linesShown_le hsorted hsorted' hbefore hbefore'⟩

/-- A new first file, and a longer body of `a`, both leave less for `b`. -/
theorem insert_degrades_crowded :
    (crowded.layout.tier "b").rank ≤ ((crowded.add "0" "x\ny").layout.tier "b").rank ∧
      (crowded.add "0" "x\ny").layout.linesShown "a" ≤ crowded.layout.linesShown "a" ∧
      (crowded.layout.tier "b").rank ≤ ((crowded.add "a" "1\n2\n3").layout.tier "b").rank ∧
      (crowded.add "a" "1\n2\n3").layout.linesShown "b" ≤ crowded.layout.linesShown "b" := by
  have hnew := insert_degrades crowded "0" (.ready "x\ny") (Or.inl (by decide))
  have hlonger := insert_degrades crowded "a" (.ready "1\n2\n3")
    (Or.inr ⟨.ready "1\n2", by decide, by decide⟩)
  exact ⟨(hnew "b" (by decide)).1, (hnew "a" (by decide)).2 (by decide),
    (hlonger "b" (by decide)).1, (hlonger "b" (by decide)).2 (by decide)⟩

end DiffReport

end StableFormat
