import StableFormat.Proofs.Diff.Frontier

/-!
# Proofs: the search finds a shortest script

The trace of a search holds what was known before each round. The way back stays on the paths of
`known`, so it never leaves the grid or the trace, and it ends at the corner.
-/

namespace StableFormat

/-- The number of deletions and insertions of a script. -/
def scriptCost (ops : List EditOp) : ℕ :=
  ops.countP (· ≠ .equal)

theorem scriptCost_replicate {op : EditOp} (hop : op ≠ .equal) (n : ℕ) :
    scriptCost (List.replicate n op) = n := by
  simp [scriptCost, List.countP_replicate, hop]

theorem scriptCost_append (ops ops' : List EditOp) :
    scriptCost (ops ++ ops') = scriptCost ops + scriptCost ops' :=
  List.countP_append

@[simp]
theorem scriptCost_equal (ops : List EditOp) : scriptCost (.equal :: ops) = scriptCost ops := by
  simp [scriptCost]

@[simp]
theorem scriptCost_keep (n : ℕ) (ops : List EditOp) :
    scriptCost (List.replicate n .equal ++ ops) = scriptCost ops := by
  simp [scriptCost, List.countP_replicate]

@[simp]
theorem scriptCost_delete (ops : List EditOp) :
    scriptCost (.delete :: ops) = scriptCost ops + 1 := by
  simp [scriptCost]

@[simp]
theorem scriptCost_insert (ops : List EditOp) :
    scriptCost (.insert :: ops) = scriptCost ops + 1 := by
  simp [scriptCost]

namespace ShortestScript

variable {α : Type} [DecidableEq α] {a b : Array α} {d x y n m rounds : ℕ} {f : Frontier}
  {trace : List (Array ℤ)} {ops : List EditOp}

/-! ## The trace -/

/-- The reader of a window that was taken before round `d`. -/
def windowReader (window : Array ℤ) (d : ℕ) (k : ℤ) : Checked ℤ :=
  Checked.read window (k + d + 1)

/-- A trace holds what was known before each round, the last one first. -/
def Trace (a b : Array α) : List (Array ℤ) → Prop
  | [] => True
  | window :: earlier =>
    Knows a b earlier.length (windowReader window earlier.length) ∧ Trace a b earlier

theorem Frontier.window_spec (hf : f.Sized) (hd : d ≤ f.bound) :
    ∃ window, f.window d = .ok window ∧
      ∀ k : ℤ, -d - 1 ≤ k → k ≤ d + 1 → windowReader window d k = f.get k := by
  have hfirst : f.slot (-d - 1) = ((f.bound - d : ℕ) : ℤ) := by
    rw [Frontier.slot]
    omega
  have hlast : f.slot (d + 1) = ((f.bound + d + 2 : ℕ) : ℤ) := by
    rw [Frontier.slot]
    omega
  have hsize : f.bound + d + 2 < f.reach.size := by
    rw [Frontier.Sized] at hf
    omega
  refine ⟨f.reach.extract (f.bound - d) (f.bound + d + 3), ?_, fun k hlo hhi => ?_⟩
  · rw [Frontier.window, hfirst, hlast, Checked.slice, if_neg (by omega), if_pos (by omega)]
    rfl
  · obtain ⟨i, hi⟩ := Int.eq_ofNat_of_zero_le (show 0 ≤ k + d + 1 by omega)
    have hslot : f.slot k = ((f.bound - d + i : ℕ) : ℤ) := by
      rw [Frontier.slot]
      omega
    have hin : f.bound - d + i < f.reach.size := by omega
    rw [windowReader, Frontier.get, hi, hslot, Checked.read_nat (x := f.reach[f.bound - d + i]),
      Checked.read_nat (x := f.reach[f.bound - d + i])]
    · exact Array.getElem?_eq_getElem hin
    · rw [Array.getElem?_extract, if_pos (by omega), Array.getElem?_eq_getElem hin]

theorem Knows.window {window : Array ℤ} (h : Knows a b d f.get)
    (hwindow : ∀ k : ℤ, -d - 1 ≤ k → k ≤ d + 1 → windowReader window d k = f.get k) :
    Knows a b d (windowReader window d) := by
  intro k hk
  rw [hwindow k, h k hk]
  · rcases hk with ⟨rfl, rfl⟩ | ⟨c, rfl, hlo, -⟩ <;> omega
  · rcases hk with ⟨rfl, rfl⟩ | ⟨c, rfl, -, hhi, -⟩ <;> omega

/-! ## The rounds of a search -/

/-- Round `d` is the first one that comes to the far corner. -/
def FirstAtCorner (a b : Array α) (d : ℕ) : Prop :=
  ComesToCorner a.toList b.toList d ∧ ∀ c < d, ¬ ComesToCorner a.toList b.toList c

/-- A search that also says at which point it has reached the far corner. -/
def searchTo (a b : Array α) : (rounds d : ℕ) → Frontier → List (Array ℤ) →
    Checked (Option (List (Array ℤ) × (ℤ × ℤ)))
  | 0, _, _, _ => .ok none
  | rounds + 1, d, f, trace => do
    let window ← f.window d
    match ← roundTo a b d (d + 1) f with
    | (_, some point) => return some (window :: trace, point)
    | (f, none) => searchTo a b rounds (d + 1) f (window :: trace)

theorem search_eq (a b : Array α) (rounds d : ℕ) (f : Frontier) (trace : List (Array ℤ)) :
    search a b rounds d f trace = Option.map Prod.fst <$> searchTo a b rounds d f trace := by
  induction rounds generalizing d f trace with
  | zero => rfl
  | succ rounds ih =>
    rw [search, searchTo]
    cases f.window d with
    | error e => rfl
    | ok window =>
      rw [Checked.ok_bind, Checked.ok_bind, round_eq]
      rcases roundTo a b d (d + 1) f with e | ⟨f', _ | point⟩
      · rfl
      · exact ih (d + 1) f' (window :: trace)
      · rfl

theorem searchTo_spec (hf : f.Sized) (hbound : d + rounds ≤ f.bound + 1)
    (hknows : Knows a b d f.get) (htrace : Trace a b trace) (hlen : trace.length = d)
    (hfirst : ∀ c < d, ¬ ComesToCorner a.toList b.toList c) :
    (searchTo a b rounds d f trace = .ok none ∧
        ∀ c < d + rounds, ¬ ComesToCorner a.toList b.toList c) ∨
      ∃ ws c, searchTo a b rounds d f trace = .ok (some (ws, (a.size, b.size))) ∧
        c < d + rounds ∧ ws.length = c + 1 ∧ Trace a b ws ∧ FirstAtCorner a b c := by
  induction rounds generalizing d f trace with
  | zero => exact Or.inl ⟨rfl, hfirst⟩
  | succ rounds ih =>
    subst hlen
    obtain ⟨window, hwindow, hreads⟩ := f.window_spec hf (d := trace.length) (by omega)
    have hstart : InRound a b trace.length
        ((trace.length : ℤ) + 2 - 2 * (trace.length + 1 : ℕ)) f := by
      refine ⟨hf, by omega, hknows, ?_⟩
      rintro k ⟨hlo, -, -⟩ hlt
      omega
    have htrace' : Trace a b (window :: trace) := ⟨hknows.window hreads, htrace⟩
    obtain ⟨f', stop, hround, hbound', hyes, hno⟩ := roundTo_spec _ le_rfl hstart
    rw [searchTo, hwindow, Checked.ok_bind, hround, Checked.ok_bind]
    cases stop with
    | some point =>
      obtain ⟨k, hk, hx, hy, hxge, hyge⟩ := hyes _ _ rfl
      rw [← hy, ← hx] at hyge
      rw [← hx] at hxge
      obtain ⟨rfl, hknown⟩ := corner_exact hfirst hk hxge hyge
      have hpoint : point = ((a.size : ℤ), (b.size : ℤ)) := by
        have hx' := hx.symm.trans hknown
        simp only [Array.length_toList] at hx' hy
        exact Prod.ext hx' (show point.2 = b.size by omega)
      rw [hpoint]
      exact Or.inr ⟨window :: trace, trace.length, rfl, by omega, rfl, htrace',
        ⟨_, hk, hxge, hyge⟩, hfirst⟩
    | none =>
      obtain ⟨hlast, hnone⟩ := hno rfl
      -- What this round has found is what the next one has to know.
      have hknows' : Knows a b (trace.length + 1) f'.get := by
        rintro k (⟨hzero, -⟩ | ⟨c, hc, hk⟩)
        · omega
        · obtain rfl : trace.length = c := by omega
          refine hlast.done k hk ?_
          obtain ⟨-, hhi, -⟩ := hk
          omega
      have hfirst' : ∀ c < trace.length + 1, ¬ ComesToCorner a.toList b.toList c := by
        intro c hc
        by_cases hlt : c < trace.length
        · exact hfirst c hlt
        · obtain rfl : c = trace.length := by omega
          rintro ⟨k, hk, hcorner⟩
          refine hnone k hk ?_ hcorner
          obtain ⟨hlo, -, -⟩ := hk
          omega
      have hrest := ih hlast.sized (by omega) hknows' htrace' rfl hfirst'
      have hcount : trace.length + 1 + rounds = trace.length + (rounds + 1) := by omega
      rw [hcount] at hrest
      exact hrest

/-- What is known before the first round. -/
theorem knows_start (bound : ℕ) : Knows a b 0 (Frontier.start bound).get := by
  rintro k (⟨-, rfl⟩ | ⟨c, hc, -⟩)
  · have hslot : (Frontier.start bound).slot 1 = ((bound + 2 : ℕ) : ℤ) := by
      simp only [Frontier.slot, Frontier.start]
      omega
    rw [Frontier.get, hslot]
    refine Checked.read_nat ?_
    rw [Frontier.start, Array.getElem?_replicate, if_pos (by omega)]
    rfl
  · omega

/-! ## The way back -/

/-- One step back from a round that has come to its diagonal by an insertion after `(u, v)`. -/
theorem walkBack_above {window : Array ℤ} {u v : ℤ} (kept : ℕ)
    (hcomes : comesFromAbove (windowReader window trace.length) trace.length (u - (v + 1)) =
      .ok true)
    (hread : windowReader window trace.length (u - v) = .ok u) :
    walkBack (window :: trace) (u + kept) (v + 1 + kept) ops =
      if trace.isEmpty then .ok ((u, v + 1), List.replicate kept .equal ++ ops)
      else walkBack trace u v (.insert :: (List.replicate kept .equal ++ ops)) := by
  have hdiag : u + kept - (v + 1 + kept) = u - (v + 1) := by omega
  have hsource : u - (v + 1) + 1 = u - v := by omega
  have hkept : (min (u + kept - u) (v + 1 + kept - v)).toNat = kept := by omega
  have hcomes' : comesFromAbove (fun k => Checked.read window (k + trace.length + 1)) trace.length
      (u - (v + 1)) = .ok true := hcomes
  have hread' : Checked.read window (u - v + trace.length + 1) = .ok u := hread
  simp only [walkBack, hdiag, hcomes', Checked.ok_bind, if_true, hsource, hread', sub_sub_cancel,
    hkept, add_sub_cancel_right]
  rfl

/-- One step back from a round that has come to its diagonal by a deletion after `(u, v)`. -/
theorem walkBack_below {window : Array ℤ} {u v : ℤ} (kept : ℕ)
    (hcomes : comesFromAbove (windowReader window trace.length) trace.length (u + 1 - v) =
      .ok false)
    (hread : windowReader window trace.length (u - v) = .ok u) :
    walkBack (window :: trace) (u + 1 + kept) (v + kept) ops =
      if trace.isEmpty then .ok ((u + 1, v), List.replicate kept .equal ++ ops)
      else walkBack trace u v (.delete :: (List.replicate kept .equal ++ ops)) := by
  have hdiag : u + 1 + kept - (v + kept) = u + 1 - v := by omega
  have hsource : u + 1 - v - 1 = u - v := by omega
  have hkept : (min (u + 1 + kept - u) (v + kept - v)).toNat = kept := by omega
  have hop : ¬ u + 1 = u := by omega
  have hcomes' : comesFromAbove (fun k => Checked.read window (k + trace.length + 1)) trace.length
      (u + 1 - v) = .ok false := hcomes
  have hread' : Checked.read window (u - v + trace.length + 1) = .ok u := hread
  simp only [walkBack, hdiag, hcomes', Checked.ok_bind, Bool.false_eq_true, if_false, hsource,
    hread', sub_sub_cancel, hkept, add_sub_cancel_right, hop]
  rfl

/-- Round zero starts at the corner, as if it came there by an insertion. -/
theorem walkBack_last {window : Array ℤ} (hknows : Knows a b 0 (windowReader window 0))
    (hround : OnRound 0 ((x : ℤ) - y)) (hentry : entry (known a.toList b.toList 0) 0 (x - y) = x)
    (kept : ℕ) :
    x = 0 ∧ y = 0 ∧
      walkBack [window] (x + kept) (y + kept) ops =
        .ok ((0, 0), List.replicate kept .equal ++ ops) := by
  have hcomes := comesFromAbove_spec hknows hround
  obtain ⟨hlo, hhi, -⟩ := hround
  have hdiag : (x : ℤ) - y = 0 := by omega
  have habove : FromAbove (known a.toList b.toList 0) 0 0 := Or.inl rfl
  rw [hdiag, decide_eq_true habove] at hcomes
  rw [hdiag, entry, if_pos habove, known] at hentry
  obtain ⟨rfl, rfl⟩ : x = 0 ∧ y = 0 := by omega
  have hread : windowReader window 0 (0 - -1) = .ok 0 := hknows 1 (Or.inl ⟨rfl, rfl⟩)
  have hwalk : walkBack [window] (0 + kept) (-1 + 1 + kept) ops =
      .ok ((0, 0), List.replicate kept .equal ++ ops) := walkBack_above kept hcomes hread
  exact ⟨rfl, rfl, hwalk⟩

theorem walkBack_spec (htrace : Trace a b trace) (hlen : trace.length = d + 1)
    (hround : OnRound d ((x : ℤ) - y)) (hknown : known a.toList b.toList (d + 1) (x - y) = x)
    (hx : x ≤ a.toList.length) (hy : y ≤ b.toList.length)
    (hpath : EditPath a.toList b.toList ops x y n m) :
    ∃ ops', walkBack trace x y ops = .ok ((0, 0), ops') ∧
      EditPath a.toList b.toList ops' 0 0 n m ∧ scriptCost ops' = d + scriptCost ops := by
  induction trace generalizing d x y ops with
  | nil => simp at hlen
  | cons window earlier ih =>
    obtain ⟨hknows, hearlier⟩ := htrace
    obtain rfl : earlier.length = d := by simpa using hlen
    obtain ⟨kept, x', y', rfl, rfl, hstep, hround', hentry⟩ := stretch_before hround hknown
    have hkeep := EditPath.keep hstep hpath
    rw [Nat.cast_add, Nat.cast_add]
    cases earlier with
    | nil =>
      obtain ⟨rfl, rfl, hwalk⟩ := walkBack_last hknows hround' hentry kept
      exact ⟨_, hwalk, hkeep, by simp⟩
    | cons window' earlier =>
      have hcomes := comesFromAbove_spec hknows hround'
      rw [List.length_cons] at hcomes hround' hentry
      rcases entry_before hround' hentry with
        ⟨habove, y'', rfl, hbefore, hknown'⟩ | ⟨hbelow, x'', rfl, hbefore, hknown'⟩
      · have hread := hknows _ (Or.inr ⟨_, rfl, hbefore⟩)
        rw [List.length_cons, hknown'] at hread
        rw [decide_eq_true habove, Nat.cast_succ] at hcomes
        have hpath' := EditPath.insert (by omega) hkeep
        obtain ⟨ops', hwalk, hpath'', hcost⟩ :=
          ih hearlier rfl hbefore hknown' (by omega) (by omega) hpath'
        refine ⟨ops', ?_, hpath'', ?_⟩
        · rw [Nat.cast_succ]
          exact Eq.trans (walkBack_above kept hcomes hread) hwalk
        · rw [hcost, scriptCost_insert, scriptCost_keep, List.length_cons]
          omega
      · have hread := hknows _ (Or.inr ⟨_, rfl, hbefore⟩)
        rw [List.length_cons, hknown'] at hread
        rw [decide_eq_false hbelow, Nat.cast_succ] at hcomes
        have hpath' := EditPath.delete (by omega) hkeep
        obtain ⟨ops', hwalk, hpath'', hcost⟩ :=
          ih hearlier rfl hbefore hknown' (by omega) (by omega) hpath'
        refine ⟨ops', ?_, hpath'', ?_⟩
        · rw [Nat.cast_succ]
          exact Eq.trans (walkBack_below kept hcomes hread) hwalk
        · rw [hcost, scriptCost_delete, scriptCost_keep, List.length_cons]
          omega

/-! ## The script -/

theorem Frontier.start_sized (bound : ℕ) : (Frontier.start bound).Sized := by
  rw [Frontier.Sized, Frontier.start, Array.size_replicate]

/-- A search from the start never goes astray, and if it reaches the far corner, it stops there. -/
theorem searchTo_start (a b : Array α) (bound : ℕ) :
    (searchTo a b (bound + 1) 0 (Frontier.start bound) [] = .ok none ∧
        ∀ c < bound + 1, ¬ ComesToCorner a.toList b.toList c) ∨
      ∃ ws d, searchTo a b (bound + 1) 0 (Frontier.start bound) [] =
          .ok (some (ws, (a.size, b.size))) ∧
        d ≤ bound ∧ ws.length = d + 1 ∧ Trace a b ws ∧ FirstAtCorner a b d := by
  have htrace : Trace a b [] := trivial
  have hbound : 0 + (bound + 1) ≤ (Frontier.start bound).bound + 1 := (Nat.zero_add _).le
  rcases searchTo_spec (Frontier.start_sized bound) hbound (knows_start bound) htrace rfl
    (fun c hc => by omega) with ⟨hnone, hfar⟩ | ⟨ws, d, hsome, hlt, hrest⟩
  · rw [Nat.zero_add] at hfar
    exact Or.inl ⟨hnone, hfar⟩
  · exact Or.inr ⟨ws, d, hsome, by omega, hrest⟩

/-- The search never goes astray. It finds a shortest script, or there is none within the limit. The
limit is kept if there is anything to search for. -/
theorem shortestScript_spec (a b : Array α) (limit : ℕ) :
    (shortestScript a b limit = .ok none ∧
        ∀ c ≤ limit, ¬ Reaches a.toList b.toList c a.toList.length b.toList.length) ∨
      ∃ ops, shortestScript a b limit = .ok (some ops) ∧
        EditPath a.toList b.toList ops 0 0 a.toList.length b.toList.length ∧
        (a.size ≠ 0 → b.size ≠ 0 → scriptCost ops ≤ limit) ∧
        ∀ c, Reaches a.toList b.toList c a.toList.length b.toList.length → scriptCost ops ≤ c := by
  rw [shortestScript]
  split_ifs with ha hb
  · refine Or.inr ⟨_, rfl, ?_, fun hne => absurd ha hne, fun c hc => ?_⟩
    · have hpath := editPath_replaceScript a.toList b.toList
      rw [Array.length_toList, Array.length_toList, ha] at hpath ⊢
      exact hpath
    · obtain ⟨-, hle, -⟩ := hc.cost_bounds
      rw [Array.length_toList, Array.length_toList, ha] at hle
      rw [scriptCost_replicate (by decide)]
      omega
  · refine Or.inr ⟨_, rfl, ?_, fun _ hne => absurd hb hne, fun c hc => ?_⟩
    · have hpath := editPath_replaceScript a.toList b.toList
      rw [Array.length_toList, Array.length_toList, hb] at hpath ⊢
      rw [replaceScript, List.replicate_zero, List.append_nil] at hpath
      exact hpath
    · obtain ⟨hle, -, -⟩ := hc.cost_bounds
      rw [Array.length_toList, Array.length_toList, hb] at hle
      rw [scriptCost_replicate (by decide)]
      omega
  · rcases searchTo_start a b (min (a.size + b.size) limit) with
      ⟨hnone, hfar⟩ | ⟨ws, d, hsome, hbound, hlen, htrace, hcorner, hfirst⟩
    · refine Or.inl ⟨?_, fun c hc hreach => hfar c ?_ (comesToCorner_of_reaches hreach)⟩
      · simp only [search_eq, hnone, Checked.map_ok, Checked.ok_bind]
        rfl
      · obtain ⟨-, -, hle⟩ := hreach.cost_bounds
        rw [Array.length_toList, Array.length_toList] at hle
        omega
    · obtain ⟨k, hround, hxge, hyge⟩ := hcorner
      obtain ⟨rfl, hknown⟩ := corner_exact hfirst hround hxge hyge
      obtain ⟨ops, hwalk, hpath, hcost⟩ :=
        walkBack_spec htrace hlen hround hknown le_rfl le_rfl (.done _ _)
      have hdone : scriptCost [] = 0 := rfl
      refine Or.inr ⟨ops, ?_, hpath, fun _ _ => by omega, fun c hreach => ?_⟩
      · rw [Array.length_toList, Array.length_toList] at hwalk
        simp only [search_eq, hsome, Checked.map_ok, Option.map_some, Checked.ok_bind, hwalk]
        rfl
      · have hge : ¬ c < d := fun hlt => hfirst c hlt (comesToCorner_of_reaches hreach)
        omega

end ShortestScript

/-- The script that the edits are read off leads from corner to corner, also when the search is
given up. -/
theorem scriptWithin_path {α : Type} [DecidableEq α] (limit : ℕ) (a b : List α) :
    EditPath a b (scriptWithin limit a.toArray b.toArray) 0 0 a.length b.length := by
  rw [scriptWithin]
  rcases ShortestScript.shortestScript_spec a.toArray b.toArray limit with
    ⟨hnone, -⟩ | ⟨ops, hsome, hpath, -⟩
  · rw [hnone]
    exact editPath_replaceScript a b
  · rw [hsome]
    exact hpath

end StableFormat
