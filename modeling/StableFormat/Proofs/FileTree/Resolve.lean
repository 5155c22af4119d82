import StableFormat.FileTree.Store
import StableFormat.Proofs.Pathname.Components

/-!
# Proofs: where path names lead

Where an absolute path leads is decided by its components. Idle pieces between them only ask for a
directory to stand where they are met, which every piece that follows them asks for, too.
-/

namespace StableFormat.FileTree

open Pathname

variable {t t' : FileTree} {place there : Place} {p : Pathname} {name segment : String}
  {parts rest : List String} {content : Content}

/-! ## Walking along pieces -/

/-- Every piece starts from a directory. -/
theorem isDirectory_of_walk (h : t.walk place (segment :: rest) = .ok there) :
    t.isDirectory place = true := by
  rw [walk] at h
  split at h
  · cases h
  · next hdirectory => simpa using hdirectory

theorem walk_idle (hidle : isIdle segment = true) (hdirectory : t.isDirectory place = true) :
    t.walk place (segment :: rest) = t.walk place rest := by
  simp [walk, hidle, hdirectory]

/-- A piece that is not idle leads to the same place, whatever follows it. -/
theorem walk_step (hidle : isIdle segment = false)
    (h : t.walk place (segment :: rest) = .ok there) :
    ∃ next, (segment ≠ ".." → next = place ++ [segment]) ∧
      ∀ rest', t.walk place (segment :: rest') = t.walk next rest' := by
  have hdirectory := isDirectory_of_walk h
  by_cases hparent : segment = ".."
  · refine ⟨place.dropLast, fun hne => absurd hparent hne, ?_⟩
    intro rest'
    rw [walk, if_neg (by simp [hdirectory]), if_neg (by simp [hidle]), if_pos hparent]
  · rw [walk, if_neg (by simp [hdirectory]), if_neg (by simp [hidle]), if_neg hparent] at h
    cases hnode : t.get? (place ++ [segment]) with
    | none => simp [hnode] at h
    | some node =>
      refine ⟨place ++ [segment], fun _ => rfl, ?_⟩
      intro rest'
      rw [walk, if_neg (by simp [hdirectory]), if_neg (by simp [hidle]), if_neg hparent, hnode]

/-- Idle pieces are not needed to get somewhere. -/
theorem walk_filter (h : t.walk place parts = .ok there) :
    t.walk place (parts.filter (!isIdle ·)) = .ok there := by
  induction parts generalizing place with
  | nil => exact h
  | cons segment rest ih =>
    cases hidle : isIdle segment with
    | true =>
      rw [walk_idle hidle (isDirectory_of_walk h)] at h
      rw [List.filter_cons_of_neg (by simp [hidle])]
      exact ih h
    | false =>
      obtain ⟨next, -, hnext⟩ := walk_step hidle h
      rw [hnext] at h
      rw [List.filter_cons_of_pos (by simp [hidle]), hnext]
      exact ih h

/-- Idle pieces before a name are no obstacle. -/
theorem walk_of_filter (hname : isIdle name = false)
    (h : t.walk place ((parts ++ [name]).filter (!isIdle ·)) = .ok there) :
    t.walk place (parts ++ [name]) = .ok there := by
  have hlast : (parts ++ [name]).filter (!isIdle ·) = parts.filter (!isIdle ·) ++ [name] := by
    rw [List.filter_append, List.filter_cons_of_pos (by simp [hname]), List.filter_nil]
  rw [hlast] at h
  clear hlast
  induction parts generalizing place with
  | nil => exact h
  | cons segment rest ih =>
    cases hidle : isIdle segment with
    | true =>
      rw [List.filter_cons_of_neg (by simp [hidle])] at h
      have hdirectory : t.isDirectory place = true := by
        -- Some piece follows, at the latest the name.
        cases hrest : rest.filter (!isIdle ·) with
        | nil =>
          rw [hrest] at h
          exact isDirectory_of_walk h
        | cons next others =>
          rw [hrest] at h
          exact isDirectory_of_walk h
      rw [List.cons_append, walk_idle hidle hdirectory]
      exact ih h
    | false =>
      rw [List.filter_cons_of_pos (by simp [hidle]), List.cons_append] at h
      obtain ⟨next, -, hnext⟩ := walk_step hidle h
      rw [hnext] at h
      rw [List.cons_append, hnext]
      exact ih h

theorem walk_append (h : t.walk place parts = .ok there) (rest : List String) :
    t.walk place (parts ++ rest) = t.walk there rest := by
  induction parts generalizing place with
  | nil =>
    obtain rfl : place = there := Except.ok.inj h
    rfl
  | cons segment others ih =>
    rw [List.cons_append]
    cases hidle : isIdle segment with
    | true =>
      have hdirectory := isDirectory_of_walk h
      rw [walk_idle hidle hdirectory] at h ⊢
      exact ih h
    | false =>
      obtain ⟨next, -, hnext⟩ := walk_step hidle h
      rw [hnext] at h ⊢
      exact ih h

theorem walk_before (h : t.walk place (parts ++ rest) = .ok there) :
    ∃ between, t.walk place parts = .ok between := by
  induction parts generalizing place with
  | nil => exact ⟨place, rfl⟩
  | cons segment others ih =>
    rw [List.cons_append] at h
    cases hidle : isIdle segment with
    | true =>
      have hdirectory := isDirectory_of_walk h
      rw [walk_idle hidle hdirectory] at h ⊢
      exact ih h
    | false =>
      obtain ⟨next, -, hnext⟩ := walk_step hidle h
      rw [hnext] at h ⊢
      exact ih h

/-- A name at the end leads into the directory that the pieces before it lead to. -/
theorem locateLast_of_walk (hname : IsName name)
    (h : t.walk [] (parts ++ [name]) = .ok place) :
    ∃ directory, t.locateLast (parts ++ [name]) = .ok (directory, some name) ∧
      place = directory ++ [name] := by
  obtain ⟨directory, hparts⟩ := walk_before h
  rw [walk_append hparts] at h
  refine ⟨directory, ?_, ?_⟩
  · have hdirectory := isDirectory_of_walk h
    rw [locateLast, List.dropLast_concat, hparts, List.getLast?_concat]
    exact if_pos hdirectory
  · obtain ⟨next, hnext, hwalk⟩ := walk_step hname.isIdle h
    rw [hwalk, hnext hname.ne_parent] at h
    exact (Except.ok.inj h).symm

/-! ## The place of a path -/

theorem partsOf_of_isAbsolute (h : p.isAbsolute = true) : partsOf p = .ok p.split.body := by
  rw [partsOf, if_pos h]

theorem locate_of_isAbsolute (h : p.isAbsolute = true) : t.locate p = t.walk [] p.split.body := by
  rw [locate, partsOf_of_isAbsolute h]
  rfl

theorem body_filter (h : p.isAbsolute = true) :
    p.split.body.filter (!isIdle ·) = p.components.tail.map Component.text := by
  obtain ⟨body, hpieces, hsplit⟩ := splitString_of_isAbsolute h
  rw [filter_isIdle, components, hsplit]
  rfl

/-- A path that ends in a name leads to where another path with its components leads. Only the other
one may ask for a directory at its end. -/
theorem locate_of_components (hp : p.isAbsolute = true) {q : Pathname} (hq : q.isAbsolute = true)
    (hbody : p.split.body = parts ++ [name]) (hname : IsName name)
    (hcomponents : p.components = q.components) (h : t.locate q = .ok place) :
    t.locate p = .ok place := by
  rw [locate_of_isAbsolute hq] at h
  rw [locate_of_isAbsolute hp, hbody]
  apply walk_of_filter hname.isIdle
  rw [← hbody, body_filter hp, hcomponents, ← body_filter hq]
  exact walk_filter h

theorem readText_of_locate {q : Pathname} (h : t.locate p = t.locate q) :
    t.readText p = t.readText q := by
  rw [readText, readText, read, read, h]

/-- What is written to a path stands at its place afterwards, and nothing else has changed. -/
theorem writeFile_eq_ok (hp : p.isAbsolute = true) (hbody : p.split.body = parts ++ [name])
    (hname : IsName name) (hplace : t.locate p = .ok place)
    (h : t.writeFile p content = .ok t') : t' = t.set place (.file content) := by
  rw [locate_of_isAbsolute hp, hbody] at hplace
  obtain ⟨directory, hlast, rfl⟩ := locateLast_of_walk hname hplace
  have hwrite : t.writeFile p content =
      if !isNewName name || t.isDirectory (directory ++ [name]) then .error .isADirectory
      else .ok (t.set (directory ++ [name]) (.file content)) := by
    rw [writeFile, partsOf_of_isAbsolute hp, hbody]
    simp only [bind, Except.bind, hlast]
    rfl
  rw [hwrite] at h
  split at h
  · cases h
  · exact (Except.ok.inj h).symm

end StableFormat.FileTree
