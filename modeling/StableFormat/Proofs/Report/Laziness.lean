import Mathlib.Data.List.Forall2
import Mathlib.Data.List.Nodup
import StableFormat.Proofs.Diff.Patch
import StableFormat.Proofs.Report.Tiers

/-!
# Proofs: differences are computed late

A difference is computed when its file gets a section, and keeps the glyphs of that moment. When
this is depends on the layouts before, and on all the other files. The tiers do not depend on it:
glyphs change the text of the lines, and never their number.
-/

namespace StableFormat

/-! ## A report in use -/

/-- What is done with a report. -/
inductive ReportOp where
  | add (path body : String)
  | addDiff (path actual expected : String)
  | withGlyphs (glyphs : Glyphs)
  | layout
  | render
  deriving DecidableEq, Repr

namespace ReportOp

def added? : ReportOp → Option (String × ReportEntry)
  | add path body => some (path, .ready body)
  | addDiff path actual expected => some (path, .pending actual expected)
  | withGlyphs _ | layout | render => none

/-- The report is only read. -/
def isQuery : ReportOp → Bool
  | layout | render => true
  | add _ _ | addDiff _ _ _ | withGlyphs _ => false

def isDiff : ReportOp → Bool
  | addDiff _ _ _ => true
  | add _ _ | withGlyphs _ | layout | render => false

def isGlyphs : ReportOp → Bool
  | withGlyphs _ => true
  | add _ _ | addDiff _ _ _ | layout | render => false

/-- The glyphs are not changed once a difference has been added. -/
def GlyphsFirst (ops : List ReportOp) : Prop :=
  ops.Pairwise fun op later => op.isDiff = true → later.isGlyphs = false

end ReportOp

/-- The additions that are not replaced by later ones. -/
def lastAdded : List (String × ReportEntry) → List (String × ReportEntry)
  | [] => []
  | a :: later => if a.1 ∈ later.map (·.1) then lastAdded later else a :: lastAdded later

namespace DiffReport

def step (r : DiffReport) : ReportOp → DiffReport
  | .add path body => r.add path body
  | .addDiff path actual expected => r.addDiff path actual expected
  | .withGlyphs glyphs => r.withGlyphs glyphs
  | .layout | .render => r.afterLayout

def perform (r : DiffReport) (ops : List ReportOp) : DiffReport :=
  ops.foldl step r

/-- The report that has only the last body of each path, computed with these glyphs at once. -/
def eager (limits : ReportLimits) (glyphs : Glyphs) (ops : List ReportOp) : DiffReport :=
  (lastAdded (ops.filterMap ReportOp.added?)).foldl (fun r a => r.add a.1 (a.2.body glyphs))
    (empty limits)

end DiffReport

/-- What of a section does not depend on the text of its body. -/
def Section.outline (s : Section) : String × ℕ × ℕ :=
  (s.path, s.body.length, s.withheld)

def Layout.outline (l : Layout) : List (String × ℕ × ℕ) × List String × ℕ :=
  (l.sections.map Section.outline, l.named, l.counted)

variable {limits : ReportLimits} {g g' glyphs : Glyphs} {allowed : Glyphs → Prop}

/-! ## The number of lines -/

theorem bodyLines_joinStrings {pieces : List String}
    (h : ∀ piece ∈ pieces, '\n' ∉ piece.toList ∧ piece ≠ "") :
    bodyLines (Text.joinStrings '\n' pieces) = pieces := by
  rw [bodyLines]
  split
  · next hempty =>
    rw [String.isEmpty_iff, joinStrings_eq_empty_iff h] at hempty
    exact hempty.symm
  · next hne =>
    rw [String.isEmpty_iff, joinStrings_eq_empty_iff h] at hne
    exact Text.splitString_joinStrings hne fun piece hpiece => (h piece hpiece).1

/-- The glyphs do not decide how many lines a difference has. -/
theorem length_renderDiff (hg : g.OneLine) (hg' : g'.OneLine) (actual expected : String) :
    (bodyLines (renderDiff actual expected g)).length =
      (bodyLines (renderDiff actual expected g')).length := by
  obtain ⟨hs, hhunks, hhunked⟩ := compute_hunks actual expected
  have hlength : ∀ (glyphs : Glyphs) (h : Hunk),
      (h.renderLines glyphs).length = h.lines.length + 1 := by
    intro glyphs h
    rw [Hunk.renderLines, List.length_cons, List.length_map]
  rw [renderDiff, renderDiff, render_of_hunks hhunks, render_of_hunks hhunks,
    bodyLines_joinStrings (rendered_pieces hg hhunked),
    bodyLines_joinStrings (rendered_pieces hg' hhunked)]
  simp only [List.length_flatMap, hlength]

theorem length_body (hg : g.OneLine) (hg' : g'.OneLine) (e : ReportEntry) :
    (bodyLines (e.body g)).length = (bodyLines (e.body g')).length := by
  cases e with
  | ready body => rfl
  | pending actual expected => exact length_renderDiff hg hg' actual expected

/-! ## Layouts with the same outline -/

/-- Bodies of the same files, with the same numbers of lines. -/
def SameShape : List (String × List String) → List (String × List String) → Prop :=
  List.Forall₂ fun b b' => b.1 = b'.1 ∧ b.2.length = b'.2.length

theorem outline_fitted {lines lines' : List String} (h : lines.length = lines'.length) (used : ℕ)
    (path : String) :
    (Section.fitted limits used path lines).outline =
      (Section.fitted limits used path lines').outline := by
  rw [Section.outline, Section.outline, Section.withheld_fitted, Section.withheld_fitted,
    Section.length_fitted, Section.length_fitted, h]
  rfl

theorem SameShape.paths_eq {bodies bodies' : List (String × List String)}
    (h : SameShape bodies bodies') : bodies.map (·.1) = bodies'.map (·.1) := by
  induction h with
  | nil => rfl
  | cons hb _ ih => rw [List.map_cons, List.map_cons, hb.1, ih]

theorem SameShape.tiers {bodies bodies' : List (String × List String)}
    (h : SameShape bodies bodies') (limits : ReportLimits) (used shown : ℕ) :
    (Layout.tiers limits used shown bodies).1.map Section.outline =
        (Layout.tiers limits used shown bodies').1.map Section.outline ∧
      (Layout.tiers limits used shown bodies).2 = (Layout.tiers limits used shown bodies').2 := by
  induction h generalizing used shown with
  | nil => exact ⟨rfl, rfl⟩
  | @cons b b' rest rest' hb hrest ih =>
    obtain ⟨path, lines⟩ := b
    obtain ⟨path', lines'⟩ := b'
    obtain ⟨rfl, hlines⟩ := hb
    cases hroom : limits.haveRoom used shown with
    | true =>
      have hused : (Section.fitted limits used path lines).body.length =
          (Section.fitted limits used path lines').body.length := by
        have hlines' : lines.length = lines'.length := hlines
        rw [Section.length_fitted, Section.length_fitted, hlines']
      obtain ⟨hsections, hremaining⟩ :=
        ih (used + 1 + (Section.fitted limits used path lines).body.length) (shown + 1)
      rw [Layout.tiers_room hroom, Layout.tiers_room hroom, ← hused, List.map_cons, List.map_cons,
        outline_fitted hlines, hsections, hremaining]
      exact ⟨rfl, rfl⟩
    | false =>
      have hsame : SameShape ((path, lines) :: rest) ((path, lines') :: rest') :=
        .cons ⟨rfl, hlines⟩ hrest
      rw [Layout.tiers_full hroom, Layout.tiers_full hroom]
      exact ⟨rfl, hsame.paths_eq⟩

theorem SameShape.outline {bodies bodies' : List (String × List String)}
    (h : SameShape bodies bodies') :
    (Layout.ofBodies limits bodies).outline = (Layout.ofBodies limits bodies').outline := by
  obtain ⟨hsections, hremaining⟩ := h.tiers limits 0 0
  rw [Layout.ofBodies, Layout.ofBodies, Layout.ofTiers, Layout.ofTiers, hremaining]
  split <;> rw [Layout.outline, Layout.outline, hsections]

/-! ## Entries that have been computed -/

/-- The second entry is the first one, or what it comes to with glyphs that are allowed. -/
inductive ReportEntry.Becomes (allowed : Glyphs → Prop) (e : ReportEntry) : ReportEntry → Prop where
  | same : Becomes allowed e e
  | computed {glyphs : Glyphs} : allowed glyphs → Becomes allowed e (.ready (e.body glyphs))

namespace ReportEntry.Becomes

variable {e e' : ReportEntry}

theorem body (h : e.Becomes allowed e') (hg : allowed g) :
    ∃ g', allowed g' ∧ e'.body g = e.body g' := by
  cases h with
  | same => exact ⟨g, hg, rfl⟩
  | @computed g' hg' => exact ⟨g', hg', rfl⟩

theorem compute (h : e.Becomes allowed e') (hg : allowed g) :
    e.Becomes allowed (.ready (e'.body g)) := by
  obtain ⟨g', hg', hbody⟩ := h.body hg
  rw [hbody]
  exact .computed hg'

end ReportEntry.Becomes

namespace ReportEntries

variable {added entries : ReportEntries}

/-- The entries are those that were added, or what these come to with glyphs that are allowed. -/
def Become (allowed : Glyphs → Prop) : ReportEntries → ReportEntries → Prop :=
  List.Forall₂ fun a e => a.1 = e.1 ∧ a.2.Becomes allowed e.2

theorem Become.insert (h : Become allowed added entries) (path : String) (entry : ReportEntry) :
    Become allowed (added.insert path entry) (entries.insert path entry) := by
  induction h with
  | nil => exact .cons ⟨rfl, .same⟩ .nil
  | @cons a e _ _ hae hrest ih =>
    obtain ⟨p, old⟩ := a
    obtain ⟨q, now⟩ := e
    obtain ⟨rfl, hbecomes⟩ := hae
    rw [ReportEntries.insert, ReportEntries.insert]
    by_cases hlt : path < p
    · rw [if_pos hlt, if_pos hlt]
      exact .cons ⟨rfl, .same⟩ (.cons ⟨rfl, hbecomes⟩ hrest)
    · rw [if_neg hlt, if_neg hlt]
      by_cases heq : path = p
      · rw [if_pos heq, if_pos heq]
        exact .cons ⟨rfl, .same⟩ hrest
      · rw [if_neg heq, if_neg heq]
        exact .cons ⟨rfl, hbecomes⟩ ih

theorem Become.place (h : Become allowed added entries) (hg : allowed g) (used shown : ℕ) :
    Become allowed added (entries.place limits g used shown).2.2 := by
  induction h generalizing used shown with
  | nil => exact .nil
  | @cons a e _ _ hae hrest ih =>
    obtain ⟨p, now⟩ := e
    rw [ReportEntries.place]
    split
    · exact .cons ⟨hae.1, hae.2.compute hg⟩ (ih _ _)
    · exact .cons hae hrest

theorem Become.sameShape (h : Become Glyphs.OneLine added entries) (hg : g.OneLine)
    (hg' : g'.OneLine) : SameShape (entries.bodies g) (added.bodies g') := by
  induction h with
  | nil => exact .nil
  | @cons a e _ _ hae _ ih =>
    obtain ⟨glyphs, hglyphs, hbody⟩ := hae.2.body hg
    have hlength : (bodyLines (e.2.body g)).length = (bodyLines (a.2.body g')).length := by
      rw [hbody]
      exact length_body hglyphs hg' a.2
    exact .cons ⟨hae.1.symm, hlength⟩ ih

theorem Become.bodies_eq (h : Become (· = g) added entries) :
    entries.bodies g = added.bodies g := by
  induction h with
  | nil => rfl
  | @cons a e _ _ hae _ ih =>
    obtain ⟨glyphs, rfl, hbody⟩ := hae.2.body rfl
    rw [bodies, List.map_cons, ← bodies, ih, hbody, ← hae.1]
    rfl

theorem Become.eq_of_ready (h : Become allowed added entries)
    (hready : ∀ a ∈ added, ∃ body, a.2 = .ready body) : entries = added := by
  induction h with
  | nil => rfl
  | @cons a e _ _ hae _ ih =>
    obtain ⟨p, old⟩ := a
    obtain ⟨q, now⟩ := e
    obtain ⟨rfl, hbecomes⟩ := hae
    obtain ⟨body, rfl⟩ := hready _ List.mem_cons_self
    have hnow : now = .ready body := by
      cases hbecomes with
      | same => rfl
      | computed _ => rfl
    rw [hnow, ih fun a ha => hready a (List.mem_cons_of_mem _ ha)]

/-! ## All additions -/

def insertAll (additions : List (String × ReportEntry)) (entries : ReportEntries) :
    ReportEntries :=
  additions.foldl (fun entries a => entries.insert a.1 a.2) entries

theorem sorted_insertAll (additions : List (String × ReportEntry))
    (h : entries.paths.Pairwise (· < ·)) :
    (insertAll additions entries).paths.Pairwise (· < ·) := by
  induction additions generalizing entries with
  | nil => exact h
  | cons a later ih => exact ih (sorted_insert h)

theorem mem_lastAdded_cons {a e : String × ReportEntry} {later : List (String × ReportEntry)} :
    e ∈ lastAdded (a :: later) ↔ e ∈ lastAdded later ∨ (e = a ∧ e.1 ∉ later.map (·.1)) := by
  rw [lastAdded]
  split
  · next hlater =>
    refine ⟨Or.inl, ?_⟩
    rintro (hlast | ⟨rfl, hnot⟩)
    · exact hlast
    · exact absurd hlater hnot
  · next hlater =>
    rw [List.mem_cons]
    constructor
    · rintro (rfl | hlast)
      · exact Or.inr ⟨rfl, hlater⟩
      · exact Or.inl hlast
    · rintro (hlast | ⟨rfl, -⟩)
      · exact Or.inr hlast
      · exact Or.inl rfl

/-- Of the additions the last of each path are there, and of the old entries those that no addition
has replaced. -/
theorem mem_insertAll {additions : List (String × ReportEntry)}
    (h : entries.paths.Pairwise (· < ·)) {e : String × ReportEntry} :
    e ∈ insertAll additions entries ↔
      e ∈ lastAdded additions ∨ (e ∈ entries ∧ e.1 ∉ additions.map (·.1)) := by
  induction additions generalizing entries with
  | nil => simp [insertAll, lastAdded]
  | cons a later ih =>
    have hstep : insertAll (a :: later) entries = insertAll later (entries.insert a.1 a.2) := rfl
    rw [hstep, ih (sorted_insert h), mem_insert h, mem_lastAdded_cons, List.map_cons,
      List.mem_cons, not_or, or_and_right, and_assoc, or_assoc]

theorem lastAdded_sublist (additions : List (String × ReportEntry)) :
    (lastAdded additions).Sublist additions := by
  induction additions with
  | nil => exact .slnil
  | cons a later ih =>
    rw [lastAdded]
    split
    · exact .cons a ih
    · exact .cons_cons a ih

theorem lastAdded_lastAdded (additions : List (String × ReportEntry)) :
    lastAdded (lastAdded additions) = lastAdded additions := by
  induction additions with
  | nil => rfl
  | cons a later ih =>
    rw [lastAdded]
    split
    · exact ih
    · next hlater =>
      have hnot : a.1 ∉ (lastAdded later).map (·.1) :=
        fun hmem => hlater (((lastAdded_sublist later).map _).subset hmem)
      rw [lastAdded, if_neg hnot, ih]

theorem eq_of_mem_iff (h : added.paths.Pairwise (· < ·)) (h' : entries.paths.Pairwise (· < ·))
    (hmem : ∀ e, e ∈ added ↔ e ∈ entries) : added = entries := by
  have hperm : added.Perm entries :=
    (List.perm_ext_iff_of_nodup (.of_map _ h.nodup) (.of_map _ h'.nodup)).2 hmem
  refine hperm.eq_of_pairwise ?_ (List.pairwise_map.1 h) (List.pairwise_map.1 h')
  intro a b _ _ hab hba
  exact absurd hba (String.lt_asymm hab)

theorem insertAll_lastAdded (additions : List (String × ReportEntry)) :
    insertAll (lastAdded additions) [] = insertAll additions [] := by
  refine eq_of_mem_iff (sorted_insertAll _ .nil) (sorted_insertAll _ .nil) fun e => ?_
  rw [mem_insertAll .nil, mem_insertAll .nil, lastAdded_lastAdded]
  simp

def computed (glyphs : Glyphs) (entries : ReportEntries) : ReportEntries :=
  entries.map fun e => (e.1, .ready (e.2.body glyphs))

theorem bodies_computed (g glyphs : Glyphs) (entries : ReportEntries) :
    (entries.computed glyphs).bodies g = entries.bodies glyphs := by
  rw [bodies, computed, List.map_map]
  rfl

theorem insert_computed (path : String) (entry : ReportEntry) (entries : ReportEntries) :
    (entries.computed glyphs).insert path (.ready (entry.body glyphs)) =
      (entries.insert path entry).computed glyphs := by
  induction entries with
  | nil => rfl
  | cons head rest ih =>
    obtain ⟨p, e⟩ := head
    have hcons : computed glyphs ((p, e) :: rest) =
        (p, .ready (e.body glyphs)) :: computed glyphs rest := rfl
    rw [hcons, insert, insert]
    split
    · rfl
    · split
      · rfl
      · rw [ih]
        rfl

end ReportEntries

namespace DiffReport

theorem foldl_add_eq (additions : List (String × ReportEntry)) {added : ReportEntries}
    {r : DiffReport} (h : r.entries = added.computed glyphs) :
    (additions.foldl (fun r a => r.add a.1 (a.2.body glyphs)) r).limits = r.limits ∧
      (additions.foldl (fun r a => r.add a.1 (a.2.body glyphs)) r).entries =
        (ReportEntries.insertAll additions added).computed glyphs := by
  induction additions generalizing added r with
  | nil => exact ⟨rfl, h⟩
  | cons a later ih =>
    have hadd : (r.add a.1 (a.2.body glyphs)).entries =
        (added.insert a.1 a.2).computed glyphs := by
      rw [← ReportEntries.insert_computed, ← h]
      rfl
    exact ih hadd

theorem eager_eq (limits : ReportLimits) (glyphs : Glyphs) (ops : List ReportOp) :
    (eager limits glyphs ops).limits = limits ∧ (eager limits glyphs ops).entries =
      (ReportEntries.insertAll (ops.filterMap ReportOp.added?) []).computed glyphs := by
  have hempty : (empty limits).entries = ReportEntries.computed glyphs [] := rfl
  have hadded := foldl_add_eq (lastAdded (ops.filterMap ReportOp.added?)) hempty
  rw [ReportEntries.insertAll_lastAdded] at hadded
  exact hadded

/-- The bodies of the eager report are those of all entries that were added. -/
theorem layout_eager (ops : List ReportOp) :
    (eager limits glyphs ops).layout = .ofBodies limits
      ((ReportEntries.insertAll (ops.filterMap ReportOp.added?) []).bodies glyphs) := by
  obtain ⟨hlimits, hentries⟩ := eager_eq limits glyphs ops
  rw [layout_eq_ofBodies, hlimits, hentries, ReportEntries.bodies_computed]

theorem eager_filter (ops : List ReportOp) :
    eager limits glyphs (ops.filter (!·.isQuery)) = eager limits glyphs ops := by
  have hadded : (ops.filter (!·.isQuery)).filterMap ReportOp.added? =
      ops.filterMap ReportOp.added? := by
    rw [List.filterMap_filter]
    congr 1
    funext op
    cases op <;> rfl
  rw [eager, eager, hadded]

/-! ## Runs -/

/-- The report has glyphs that are allowed, and entries that come from those that were added. -/
structure Reflects (allowed : Glyphs → Prop) (added : ReportEntries) (r : DiffReport) : Prop where
  glyphs : allowed r.glyphs
  entries : ReportEntries.Become allowed added r.entries

namespace Reflects

variable {added : ReportEntries} {r : DiffReport}

theorem insert (h : Reflects allowed added r) (path : String) (entry : ReportEntry) :
    Reflects allowed (added.insert path entry) (r.insert path entry) :=
  ⟨h.glyphs, h.entries.insert path entry⟩

theorem withGlyphs (h : Reflects allowed added r) (hg : allowed g) :
    Reflects allowed added (r.withGlyphs g) :=
  ⟨hg, h.entries⟩

theorem afterLayout (h : Reflects allowed added r) : Reflects allowed added r.afterLayout :=
  ⟨h.glyphs, h.entries.place h.glyphs 0 0⟩

theorem perform {ops : List ReportOp} (h : Reflects allowed added r)
    (hops : ∀ glyphs, .withGlyphs glyphs ∈ ops → allowed glyphs) :
    Reflects allowed (added.insertAll (ops.filterMap ReportOp.added?)) (r.perform ops) := by
  induction ops generalizing added r with
  | nil => exact h
  | cons op rest ih =>
    have hrest : ∀ glyphs, .withGlyphs glyphs ∈ rest → allowed glyphs :=
      fun glyphs hglyphs => hops glyphs (List.mem_cons_of_mem _ hglyphs)
    cases op with
    | add path body => exact ih (h.insert path _) hrest
    | addDiff path actual expected => exact ih (h.insert path _) hrest
    | withGlyphs glyphs => exact ih (h.withGlyphs (hops glyphs List.mem_cons_self)) hrest
    | layout => exact ih h.afterLayout hrest
    | render => exact ih h.afterLayout hrest

end Reflects

theorem limits_perform (r : DiffReport) (ops : List ReportOp) : (r.perform ops).limits = r.limits := by
  induction ops generalizing r with
  | nil => rfl
  | cons op rest ih =>
    have hstep : (r.step op).limits = r.limits := by
      cases op <;> rfl
    exact (ih (r.step op)).trans hstep

theorem reflects_empty (limits : ReportLimits) (h : allowed .fancy) :
    Reflects allowed [] (empty limits) :=
  ⟨h, .nil⟩

theorem outline_perform {ops : List ReportOp}
    (hops : ∀ glyphs, .withGlyphs glyphs ∈ ops → glyphs.OneLine) (hg : g.OneLine) :
    ((empty limits).perform ops).layout.outline = (eager limits g ops).layout.outline := by
  have hreflects := (reflects_empty limits oneLine_fancy).perform hops
  have hlimits := limits_perform (empty limits) ops
  rw [layout_eq_ofBodies, layout_eager, hlimits]
  exact (hreflects.entries.sameShape hreflects.glyphs hg).outline

/-- Until a difference is added, the entries are as they were added. -/
theorem entries_perform {ops : List ReportOp} (hops : ∀ op ∈ ops, op.isDiff = false) :
    ((empty limits).perform ops).entries =
      ReportEntries.insertAll (ops.filterMap ReportOp.added?) [] := by
  have hreflects : Reflects (fun _ => True) _ ((empty limits).perform ops) :=
    (reflects_empty limits trivial).perform fun _ _ => trivial
  refine hreflects.entries.eq_of_ready fun a ha => ?_
  rw [ReportEntries.mem_insertAll .nil] at ha
  rcases ha with hlast | ⟨hnil, -⟩
  · obtain ⟨op, hop, hadded⟩ := List.mem_filterMap.1 ((ReportEntries.lastAdded_sublist _).subset hlast)
    cases op with
    | add path body =>
      obtain rfl := Option.some.inj hadded
      exact ⟨body, rfl⟩
    | addDiff path actual expected => cases hops _ hop
    | withGlyphs glyphs => cases hadded
    | layout => cases hadded
    | render => cases hadded
  · cases hnil

end DiffReport

theorem ReportOp.GlyphsFirst.split {ops : List ReportOp} (h : GlyphsFirst ops) :
    ∃ before after, ops = before ++ after ∧ (∀ op ∈ before, op.isDiff = false) ∧
      ∀ op ∈ after, op.isGlyphs = false := by
  induction ops with
  | nil => exact ⟨[], [], rfl, by simp, by simp⟩
  | cons op rest ih =>
    obtain ⟨hop, hrest⟩ := List.pairwise_cons.1 h
    cases hdiff : op.isDiff with
    | true =>
      refine ⟨[], op :: rest, rfl, by simp, fun later hlater => ?_⟩
      rcases List.mem_cons.1 hlater with rfl | hlater
      · cases later with
        | addDiff _ _ _ => rfl
        | _ => cases hdiff
      · exact hop later hlater hdiff
    | false =>
      obtain ⟨before, after, hsplit, hbefore, hafter⟩ := ih hrest
      refine ⟨op :: before, after, by rw [hsplit, List.cons_append], ?_, hafter⟩
      intro earlier hearlier
      rcases List.mem_cons.1 hearlier with rfl | hearlier
      · exact hdiff
      · exact hbefore earlier hearlier

namespace DiffReport

/-- All bodies are computed with the glyphs that the report has in the end. -/
theorem layout_perform {ops : List ReportOp} (h : ReportOp.GlyphsFirst ops) :
    ((empty limits).perform ops).layout =
      (eager limits ((empty limits).perform ops).glyphs ops).layout := by
  -- Before the first difference nothing is computed, and behind it the glyphs stay the same.
  obtain ⟨before, after, hsplit, hbefore, hafter⟩ := h.split
  generalize hmid : (empty limits).perform before = mid
  have hrun : (empty limits).perform ops = mid.perform after := by
    rw [← hmid, perform, perform, perform, ← List.foldl_append, hsplit]
  have hmidEntries : mid.entries =
      ReportEntries.insertAll (before.filterMap ReportOp.added?) [] := by
    rw [← hmid, entries_perform hbefore]
  have hsame : ReportEntries.Become (· = mid.glyphs) mid.entries mid.entries :=
    List.forall₂_same.2 fun _ _ => ⟨rfl, .same⟩
  have hmidReflects : Reflects (· = mid.glyphs) mid.entries mid := ⟨rfl, hsame⟩
  have hkept : ∀ glyphs, .withGlyphs glyphs ∈ after → glyphs = mid.glyphs := by
    intro glyphs hglyphs
    cases hafter _ hglyphs
  have hreflects := hmidReflects.perform hkept
  have hadded : mid.entries.insertAll (after.filterMap ReportOp.added?) =
      ReportEntries.insertAll (ops.filterMap ReportOp.added?) [] := by
    rw [hmidEntries, hsplit, List.filterMap_append, ReportEntries.insertAll,
      ReportEntries.insertAll, ReportEntries.insertAll, List.foldl_append]
  rw [layout_eq_ofBodies, layout_eager, limits_perform, hrun, hreflects.glyphs,
    hreflects.entries.bodies_eq, hadded]
  rfl

/-- A report that computes differences late is like one that has all bodies at once. Whatever has been
done with it, its layout has the outline of the eager report's, with any glyphs that keep to a line;
it does not matter how often it was read in between; and if the glyphs were chosen before the first
difference was added, the texts are the same, too. -/
theorem lazy_refines_eager (limits : ReportLimits) (ops : List ReportOp)
    (hops : ∀ glyphs, .withGlyphs glyphs ∈ ops → glyphs.OneLine) :
    let r := (empty limits).perform ops
    (∀ glyphs : Glyphs, glyphs.OneLine →
      r.layout.outline = (eager limits glyphs ops).layout.outline) ∧
    (∀ ops' : List ReportOp, ops'.filter (!·.isQuery) = ops.filter (!·.isQuery) →
      ((empty limits).perform ops').layout.outline = r.layout.outline) ∧
    (ReportOp.GlyphsFirst ops →
      r.layout = (eager limits r.glyphs ops).layout ∧
        r.render = (eager limits r.glyphs ops).render) := by
  intro r
  refine ⟨fun glyphs hglyphs => outline_perform hops hglyphs, fun ops' hsame => ?_,
    fun hfirst => ?_⟩
  · have hmem : ∀ glyphs, .withGlyphs glyphs ∈ ops' → .withGlyphs glyphs ∈ ops := by
      intro glyphs hglyphs
      have hfilter : .withGlyphs glyphs ∈ ops'.filter (!·.isQuery) :=
        List.mem_filter.2 ⟨hglyphs, rfl⟩
      rw [hsame] at hfilter
      exact (List.mem_filter.1 hfilter).1
    have heager : eager limits .fancy ops' = eager limits .fancy ops := by
      rw [← eager_filter ops', hsame, eager_filter]
    rw [outline_perform (fun glyphs hglyphs => hops glyphs (hmem glyphs hglyphs)) oneLine_fancy,
      heager, outline_perform hops oneLine_fancy]
  · have hlayout : r.layout = (eager limits r.glyphs ops).layout := layout_perform hfirst
    refine ⟨hlayout, ?_⟩
    have hlimits : r.limits = limits := limits_perform (empty limits) ops
    rw [render, render, hlayout, (eager_eq limits r.glyphs ops).1, hlimits]

/-- Operations on two files, one of which is added again after it has been computed. -/
def twiceAdded : List ReportOp :=
  [.withGlyphs .simple, .addDiff "b" "x\n" "y\n", .layout, .add "a" "1\n2", .render,
    .addDiff "b" "x \n" "y\n"]

theorem lazy_refines_eager_twiceAdded :
    let r := (empty ⟨5, 2⟩).perform twiceAdded
    r.layout.outline = (eager ⟨5, 2⟩ .fancy twiceAdded).layout.outline ∧
      ((empty ⟨5, 2⟩).perform (twiceAdded.filter (!·.isQuery))).layout.outline =
        r.layout.outline ∧
      r.render = (eager ⟨5, 2⟩ .simple twiceAdded).render := by
  have hops : ∀ glyphs, .withGlyphs glyphs ∈ twiceAdded → glyphs.OneLine := by
    intro glyphs hglyphs
    have hsimple : glyphs = .simple := by simpa [twiceAdded] using hglyphs
    rw [hsimple]
    exact oneLine_simple
  obtain ⟨houtline, hqueries, htexts⟩ := lazy_refines_eager ⟨5, 2⟩ twiceAdded hops
  exact ⟨houtline .fancy oneLine_fancy, hqueries _ (by decide),
    (htexts (by rw [ReportOp.GlyphsFirst]; decide)).2⟩

end DiffReport

end StableFormat
