import StableFormat.Proofs.FileTree.Resolve

/-!
# Proofs: fixes and the files that they were read from

A file is read by its path and written back by its name below the root. The name leads back to the
file as long as no parent directory lies behind the root in its path; such components are left out
of the name, and what is written goes to another file.
-/

namespace StableFormat.FileTree

open Pathname

variable {t t' : FileTree} {root path : Pathname} {relative content : String}
  {source : SourceFile} {place : Place}

/-- What is known of a source that could be read. -/
theorem readSource_eq_ok (h : t.readSource root path = .ok source) :
    relativeTo? root path = some source.path ∧ t.readText path = .ok source.content ∧
      ∃ place, t.locate path = .ok place := by
  rw [readSource] at h
  cases hrelative : relativeTo? root path with
  | none => simp [hrelative] at h
  | some relative =>
    cases hplace : t.locate path with
    | error e => simp [hrelative, hplace] at h
    | ok place =>
      simp only [hrelative, hplace] at h
      split at h
      · cases h
      · split at h
        · next content hread =>
          obtain rfl := Except.ok.inj h
          exact ⟨rfl, hread, place, rfl⟩
        · cases h
        · cases h

/-- A replacement that works is a write to the path itself. -/
theorem replaceFile_eq_ok (h : t.replaceFile path content = (t', .ok ())) :
    t.writeFile path (.text content) = .ok t' := by
  cases hwritten : t.writeFile path (.text content) with
  | ok written =>
    simp only [replaceFile, hwritten] at h
    split at h
    · rw [(Prod.mk.inj h).1]
    · split at h
      · cases (Prod.mk.inj h).2
      · split at h
        · rw [(Prod.mk.inj h).1]
        · cases (Prod.mk.inj h).2
  | error e =>
    simp only [replaceFile, hwritten] at h
    split at h
    · cases (Prod.mk.inj h).2
    · split at h
      · cases (Prod.mk.inj h).2
      · split at h <;> cases (Prod.mk.inj h).2

/-- If the components of a path come back from its relative name, so does the place that it leads
to, and a replacement by that name changes what stands at this place. -/
theorem locate_child (hroot : root.isAbsolute = true)
    (h : relativeTo? root path = some relative)
    (hcomponents : (root.child relative).components = path.components)
    (hplace : t.locate path = .ok place) :
    t.locate (root.child relative) = .ok place ∧
      ∀ content t', t.replaceFile (root.child relative) content = (t', .ok ()) →
        t' = t.set place (.file (.text content)) := by
  have hchild : (root.child relative).isAbsolute = true := join_isAbsolute hroot
  have hpath : path.isAbsolute = true := by
    apply isAbsolute_of_head
    rw [← hcomponents, components_of_isAbsolute hchild]
    rfl
  obtain ⟨parts, name, hbody, hname⟩ := body_child_relativeTo? hroot h
  have hlocate := locate_of_components hchild hpath hbody hname hcomponents hplace
  refine ⟨hlocate, ?_⟩
  intro content t' hreplaced
  exact writeFile_eq_ok hchild hbody hname hlocate (replaceFile_eq_ok hreplaced)

/-- A relative name leads back to the file that it was made for exactly if no parent directory lies
behind the root in its path. Then no other such path has the same name, and a source that is read by
the path is found, and replaced, at the same place by its name. A parent directory behind the root
is missing from the name, which leads elsewhere. -/
theorem relativeName_leads_back {root path : Pathname} {relative : String}
    (hroot : root.isAbsolute = true) (h : relativeTo? root path = some relative) :
    ∃ below, path.components = root.components ++ below ∧
      (root.child relative).components = root.components ++ below.filter (· ≠ .parent) ∧
      ((root.child relative).components = path.components ↔ .parent ∉ below) ∧
      (.parent ∉ below →
        (∀ other otherBelow, other.components = root.components ++ otherBelow →
          .parent ∉ otherBelow → relativeTo? root other = some relative →
            other.components = path.components) ∧
        (∀ t source, readSource t root path = .ok source →
          ∃ place, t.locate path = .ok place ∧ source.path = relative ∧
            t.locate (root.child source.path) = .ok place ∧
            t.readText (root.child source.path) = .ok source.content ∧
            ∀ content t', t.replaceFile (root.child source.path) content = (t', .ok ()) →
              t' = t.set place (.file (.text content)))) := by
  obtain ⟨below, hbelow, hchild⟩ := components_child_relativeTo? hroot h
  have hback := components_child_eq_iff hroot h hbelow
  refine ⟨below, hbelow, hchild, hback, ?_⟩
  intro hparent
  have hcomponents := hback.2 hparent
  constructor
  · intro other otherBelow hother hotherParent hsame
    have hotherBack := (components_child_eq_iff hroot hsame hother).2 hotherParent
    exact hotherBack.symm.trans hcomponents
  · intro t source hread
    obtain ⟨hrelative, htext, place, hplace⟩ := readSource_eq_ok hread
    obtain rfl : relative = source.path := Option.some.inj (h.symm.trans hrelative)
    obtain ⟨hlocate, hreplace⟩ := locate_child hroot h hcomponents hplace
    refine ⟨place, hplace, rfl, hlocate, ?_, hreplace⟩
    rw [readText_of_locate (hlocate.trans hplace.symm)]
    exact htext

/-- A tree with two files of one name. -/
def twoNotes : FileTree :=
  ⟨[(["work"], .directory), (["work", "note"], .file (.text "upper ")),
    (["work", "sub"], .directory), (["work", "sub", "note"], .file (.text "lower "))]⟩

theorem replaceFile_twoNotes : twoNotes.replaceFile (child ⟨"/work"⟩ "sub/note") "new" =
    (twoNotes.set ["work", "sub", "note"] (.file (.text "new")), .ok ()) := by
  have hchild : child ⟨"/work"⟩ "sub/note" = ⟨"/work/sub/note"⟩ := by decide +kernel
  have hparent : parent? ⟨"/work/sub/note"⟩ = some ⟨"/work/sub"⟩ := by decide +kernel
  have hplace : twoNotes.locate ⟨"/work/sub"⟩ = .ok ["work", "sub"] := by rfl
  have hnew : isNewName "note" = true := by
    have hidle : isIdle "note" = false := by decide
    have hsize : "note".utf8ByteSize ≤ 255 := by decide +kernel
    simp [isNewName, hidle, hsize]
  have hparts : partsOf ⟨"/work/sub/note"⟩ = .ok ["work", "sub", "note"] := by rfl
  have hlast : twoNotes.locateLast ["work", "sub", "note"] =
      .ok (["work", "sub"], some "note") := by rfl
  have hwritten : twoNotes.writeFile ⟨"/work/sub/note"⟩ (.text "new") =
      .ok (twoNotes.set ["work", "sub", "note"] (.file (.text "new"))) := by
    rw [writeFile, hparts]
    simp only [bind, Except.bind, hlast, hnew]
    rfl
  have hdirectory : twoNotes.isDirectory ["work", "sub"] = true := by decide
  rw [hchild, replaceFile, hwritten, hparent]
  simp only [hplace, hdirectory, if_true]

/-- A path with idle parts leads back to the lower note of `twoNotes`, which was read by it. -/
theorem relativeName_leads_back_twoNotes :
    isAbsolute ⟨"/work"⟩ = true ∧ relativeTo? ⟨"/work"⟩ ⟨"/work//sub/./note"⟩ = some "sub/note" ∧
      (child ⟨"/work"⟩ "sub/note").components = components ⟨"/work//sub/./note"⟩ ∧
      twoNotes.readText (child ⟨"/work"⟩ "sub/note") = .ok "lower " := by
  have hroot : isAbsolute ⟨"/work"⟩ = true := by decide
  have hrelative : relativeTo? ⟨"/work"⟩ ⟨"/work//sub/./note"⟩ = some "sub/note" := by
    decide +kernel
  have hread : twoNotes.readSource ⟨"/work"⟩ ⟨"/work//sub/./note"⟩ =
      .ok ⟨"sub/note", "lower "⟩ := by rfl
  obtain ⟨below, hbelow, -, hback, hsettled⟩ := relativeName_leads_back hroot hrelative
  have hcomponents : components ⟨"/work//sub/./note"⟩ =
      components ⟨"/work"⟩ ++ [.normal "sub", .normal "note"] := by decide +kernel
  obtain rfl := List.append_cancel_left (hbelow.symm.trans hcomponents)
  have hparent : Component.parent ∉ [Component.normal "sub", .normal "note"] := by decide
  obtain ⟨place, -, -, -, htext, -⟩ := (hsettled hparent).2 twoNotes _ hread
  exact ⟨hroot, hrelative, hback.2 hparent, htext⟩

/-- A parent directory behind the root is lost. By a path to the upper note of `twoNotes` that goes
through the lower directory, the upper note is read, under the name of the lower one; and what is
written back replaces the lower note. -/
theorem relativeName_loses_parent :
    (¬ ∀ (root path : Pathname) (relative : String), root.isAbsolute = true →
      relativeTo? root path = some relative →
        (root.child relative).components = path.components) ∧
    (¬ ∀ (root path other : Pathname) (relative : String), root.isAbsolute = true →
      relativeTo? root path = some relative → relativeTo? root other = some relative →
        path.components = other.components) ∧
    twoNotes.readSource ⟨"/work"⟩ ⟨"/work/sub/../note"⟩ = .ok ⟨"sub/note", "upper "⟩ ∧
    twoNotes.fileAt? ["work", "sub", "note"] = some (.text "lower ") ∧
    (twoNotes.replaceFile (child ⟨"/work"⟩ "sub/note") "new").1.fileAt? ["work", "sub", "note"] =
      some (.text "new") := by
  have hroot : isAbsolute ⟨"/work"⟩ = true := by decide
  have hupper : relativeTo? ⟨"/work"⟩ ⟨"/work/sub/../note"⟩ = some "sub/note" := by
    decide +kernel
  have hlower : relativeTo? ⟨"/work"⟩ ⟨"/work/sub/note"⟩ = some "sub/note" := by
    decide +kernel
  have hne : components ⟨"/work/sub/note"⟩ ≠ components ⟨"/work/sub/../note"⟩ := by
    decide +kernel
  have hchild : child ⟨"/work"⟩ "sub/note" = ⟨"/work/sub/note"⟩ := by decide +kernel
  refine ⟨?_, ?_, by rfl, by decide, ?_⟩
  · intro hall
    have hsame := hall _ _ _ hroot hupper
    rw [hchild] at hsame
    exact hne hsame
  · intro hall
    exact hne (hall _ _ _ _ hroot hlower hupper)
  · rw [replaceFile_twoNotes]
    decide

end StableFormat.FileTree
