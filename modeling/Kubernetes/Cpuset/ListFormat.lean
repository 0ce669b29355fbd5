import Mathlib
import Kubernetes.Go.Strings
import Kubernetes.Go.Strconv
import Kubernetes.Go.Sort

/-!
# `cpuset.CPUSet` in the Linux CPU list format

`CPUSet.String` writes a set of CPU ids in the Linux list format: the ids in increasing order,
grouped into maximal runs of consecutive ids, each run written `start-end` and a single id as
itself, separated by commas.  `Parse` reads such a list: it splits it at commas and each piece
at its first `-`, reads the numbers with `strconv.Atoi`, and adds the ids of a range by the loop
`for e := start; e <= end; e++` (`pkg/kubelet/cm/cpuset/cpuset.go`).

An `int` is 64 bits wide, so `e++` wraps at `MaxInt64` and a range that ends there never ends
the loop.  The loop runs here on fuel, `none` standing for a loop that has not ended.  For every
list whose ranges end below `MaxInt64`, `Parse` returns, and a range `start-end` adds exactly
the ids from `start` to `end` (`parse_terminates`, `addRange_of_lt`); a range that ends at
`MaxInt64` never returns (`parse_never_returns_at_maxInt64`).  A set of ids from `0` to
`MaxInt64` is written as its maximal runs and read back by `Parse`, unless it holds both
`MaxInt64 - 1` and `MaxInt64`, whose run ends at `MaxInt64` (`parse_string`,
`parse_string_wraps`).

The `Builder` is the set it fills, since `Parse` never calls `Result` before the end.  An error
carries the text that `strconv.Atoi` rejects or the range that is the wrong way round; the
messages `Error` makes of them are not modelled.
-/

namespace Kubernetes
namespace Cpuset

open Go

/-- `cpuset.CPUSet`: a set of CPU ids, Go `int`s. -/
structure CPUSet where
  elems : Finset Int
  deriving DecidableEq

/-- `NewCPUSet(cpus...)`. -/
def newCPUSet (cpus : List Int) : CPUSet :=
  ⟨cpus.toFinset⟩
attribute [grind] newCPUSet

/-- `CPUSet.IsEmpty`: the set has size `0`. -/
def CPUSet.isEmpty (s : CPUSet) : Bool :=
  s.elems.card == 0
attribute [grind] CPUSet.isEmpty

/-- `CPUSet.ToSlice`: the ids in increasing order. -/
def CPUSet.toSlice (s : CPUSet) : List Int :=
  setsIntList s.elems
attribute [grind] CPUSet.toSlice

/-- The ids of an increasing list are listed as that list. -/
theorem toSlice_newCPUSet {cpus : List Int} (h : cpus.Pairwise (· < ·)) :
    (newCPUSet cpus).toSlice = cpus :=
  setsIntList_toFinset_of_pairwise h

/-! ## `String` -/

/-- The `rng` of `CPUSet.String`: the ids from `start` to `end`. -/
structure Rng where
  start : Int
  end_ : Int
  deriving DecidableEq, Repr

/-- One turn of the loop of `String` over the sorted ids, on the ranges held last range first:
the id extends the last range when it is adjacent to its high end, and starts a new range
otherwise. -/
def extendOrStart (ranges : List Rng) (e : Int) : List Rng :=
  match ranges with
  | lastRange :: more =>
      if e = wrap64 (lastRange.end_ + 1) then { lastRange with end_ := e } :: more
      else ⟨e, e⟩ :: lastRange :: more
  | [] => [⟨e, e⟩]
attribute [grind] extendOrStart

/-- What `String` writes for a range: `strconv.Itoa(start)` for a single id, and
`fmt.Sprintf("%d-%d", start, end)` otherwise. -/
def Rng.text (r : Rng) : String :=
  if r.start = r.end_ then formatInt r.start else formatInt r.start ++ "-" ++ formatInt r.end_
attribute [grind] Rng.text

/-- `CPUSet.String`: the ranges of the sorted ids, each followed by a comma, with the trailing
commas trimmed. -/
def CPUSet.string (s : CPUSet) : String :=
  if s.isEmpty then ""
  else
    match s.toSlice with
    | [] => ""
    | first :: elems =>
        let ranges := (elems.foldl extendOrStart [⟨first, first⟩]).reverse
        trimRight (ranges.foldl (fun result r => result ++ r.text ++ ",") "") ','
attribute [grind] CPUSet.string

/-! ## `Parse` -/

/-- The errors `Parse` returns: that of `strconv.Atoi` on the text of a number, and a range
whose start is past its end. -/
inductive ParseError
  | atoi (text : String)
  | invalidRange (r : String) (start end_ : Int)
  deriving DecidableEq, Repr

/-- The loop `for e := start; e <= end; e++ { b.Add(e) }` from `e` on, for at most `fuel`
turns: `none` when it has not ended by then.  `e++` wraps at `MaxInt64`. -/
def addRange (end_ : Int) : Nat → Int → Finset Int → Option (Finset Int)
  | 0, _, _ => none
  | fuel + 1, e, elems =>
      if e ≤ end_ then addRange end_ fuel (wrap64 (e + 1)) (insert e elems) else some elems
attribute [grind] addRange

/-- `Parse`, each range loop run for at most `fuel` turns: `none` when one has not ended. -/
def parse (fuel : Nat) (s : String) : Option (Except ParseError CPUSet) :=
  if s = "" then some (.ok ⟨∅⟩)
  else (loop fuel (stringsSplit s ',') ∅).map fun result => result.map CPUSet.mk
where
  /-- The loop over the comma-separated pieces, adding their ids to the set. -/
  loop (fuel : Nat) : List String → Finset Int → Option (Except ParseError (Finset Int))
    | [], elems => some (.ok elems)
    | r :: ranges, elems =>
        match stringsSplitN r '-' 2 with
        | [b] =>
            match parseInt b with
            | none => some (.error (.atoi b))
            | some elem => loop fuel ranges (insert elem elems)
        | [b0, b1] =>
            match parseInt b0 with
            | none => some (.error (.atoi b0))
            | some start =>
                match parseInt b1 with
                | none => some (.error (.atoi b1))
                | some end_ =>
                    if start > end_ then some (.error (.invalidRange r start end_))
                    else
                      match addRange end_ fuel start elems with
                      | none => none
                      | some elems => loop fuel ranges elems
        | _ => loop fuel ranges elems
attribute [grind] parse parse.loop

/-! ## The range loop -/

/-- `start, start + 1, ...`, `n` ids. -/
def intsFrom (start : Int) (n : Nat) : List Int :=
  (List.range n).map fun i : Nat => start + i
attribute [grind] intsFrom

theorem intsFrom_succ (start : Int) (n : Nat) :
    intsFrom start (n + 1) = start :: intsFrom (start + 1) n := by
  simp only [intsFrom, List.range_succ_eq_map, List.map_cons, List.map_map, Nat.cast_zero,
    add_zero, Function.comp_def, Nat.cast_succ]
  congr 1
  exact List.map_congr_left fun i _ => by ring

theorem mem_intsFrom {start x : Int} {n : Nat} :
    x ∈ intsFrom start n ↔ start ≤ x ∧ x < start + n := by
  simp only [intsFrom, List.mem_map, List.mem_range]
  constructor
  · rintro ⟨i, hi, rfl⟩
    omega
  · rintro ⟨hlo, hhi⟩
    exact ⟨(x - start).toNat, by omega, by omega⟩

/-- A range loop that ends at `MaxInt64` never ends: no `int` is above `MaxInt64`. -/
theorem addRange_maxInt64 :
    ∀ (fuel : Nat) (e : Int) (elems : Finset Int), e ≤ maxInt64 →
      addRange maxInt64 fuel e elems = none
  | 0, _, _, _ => rfl
  | fuel + 1, e, elems, he => by
      rw [addRange, if_pos he]
      exact addRange_maxInt64 fuel _ _ (wrap64_le_maxInt64 _)

/-- A range loop that ends below `MaxInt64` adds the ids from `e` to its end, given a turn
more than it adds. -/
theorem addRange_of_lt {end_ : Int} (hend : end_ < maxInt64) :
    ∀ (n fuel : Nat) (e : Int) (elems : Finset Int), minInt64 ≤ e →
      (end_ + 1 - e).toNat = n → n < fuel →
      addRange end_ fuel e elems = some (elems ∪ (intsFrom e n).toFinset)
  | _, 0, _, _, _, _, hfuel => absurd hfuel (Nat.not_lt_zero _)
  | 0, fuel + 1, e, elems, _, hn, _ => by
      -- past the end: the loop stops at once
      have hpast : ¬e ≤ end_ := by omega
      simp [addRange, hpast, intsFrom]
  | n + 1, fuel + 1, e, elems, he, hn, hfuel => by
      have hle : e ≤ end_ := by omega
      have hwrap : wrap64 (e + 1) = e + 1 := wrap64_of_mem (by omega) (by omega)
      rw [addRange, if_pos hle, hwrap,
        addRange_of_lt hend n fuel (e + 1) _ (by omega) (by omega) (by omega), intsFrom_succ,
        List.toFinset_cons, Finset.insert_union, Finset.union_insert]

/-- What a range loop that returns adds lies between its start and its end. -/
theorem addRange_subset {end_ : Int} (hend : end_ ≤ maxInt64) {fuel : Nat} {e : Int}
    {elems r : Finset Int} (he : minInt64 ≤ e) (h : addRange end_ fuel e elems = some r) :
    ∀ x ∈ r, x ∈ elems ∨ e ≤ x ∧ x ≤ end_ := by
  rcases hend.lt_or_eq with hlt | rfl
  · induction fuel generalizing e elems with
    | zero => simp [addRange] at h
    | succ fuel ih =>
        by_cases hle : e ≤ end_
        · have hwrap : wrap64 (e + 1) = e + 1 := wrap64_of_mem (by omega) (by omega)
          rw [addRange, if_pos hle, hwrap] at h
          intro x hx
          rcases ih (by omega) h x hx with hx | hx
          · rcases Finset.mem_insert.mp hx with rfl | hx
            · exact .inr ⟨le_rfl, hle⟩
            · exact .inl hx
          · exact .inr ⟨by omega, hx.2⟩
        · rw [addRange, if_neg hle, Option.some.injEq] at h
          subst h
          exact fun x hx => .inl hx
  · -- a loop up to `MaxInt64` returns only when it starts past it
    cases fuel with
    | zero => simp [addRange] at h
    | succ fuel =>
        by_cases hle : e ≤ maxInt64
        · rw [addRange, if_pos hle, addRange_maxInt64 fuel _ _ (wrap64_le_maxInt64 _)] at h
          exact absurd h (by simp)
        · rw [addRange, if_neg hle, Option.some.injEq] at h
          subst h
          exact fun x hx => .inl hx

/-! ## Ranges and their ids -/

/-- The ids of a range, from `start` to `end` in increasing order. -/
def Rng.toList (r : Rng) : List Int :=
  intsFrom r.start (r.end_ + 1 - r.start).toNat
attribute [grind] Rng.toList

theorem Rng.mem_toList {r : Rng} {x : Int} : x ∈ r.toList ↔ r.start ≤ x ∧ x ≤ r.end_ := by
  rw [Rng.toList, mem_intsFrom]
  omega

theorem Rng.length_toList (r : Rng) : r.toList.length = (r.end_ + 1 - r.start).toNat := by
  simp [Rng.toList, intsFrom]

/-- Raising the end of a range by one adds that id at the end. -/
theorem Rng.toList_end_succ (r : Rng) (hle : r.start ≤ r.end_) :
    ({ r with end_ := r.end_ + 1 } : Rng).toList = r.toList ++ [r.end_ + 1] := by
  have hn : (r.end_ + 1 + 1 - r.start).toNat = (r.end_ + 1 - r.start).toNat + 1 := by omega
  simp only [Rng.toList, intsFrom, hn, List.range_succ, List.map_append, List.map_cons,
    List.map_nil]
  congr 2
  omega

/-- The text of a range of ids from `0` on is digits, with a `-` between two numbers. -/
theorem Rng.mem_text {r : Rng} (h0 : 0 ≤ r.start) (hle : r.start ≤ r.end_) {c : Char}
    (hc : c ∈ r.text.toList) : c.isDigit = true ∨ c = '-' := by
  have hend : 0 ≤ r.end_ := h0.trans hle
  unfold Rng.text at hc
  split_ifs at hc
  · exact .inl (isDigit_of_mem_formatInt h0 hc)
  · simp only [String.toList_append, List.mem_append] at hc
    rcases hc with (hc | hc) | hc
    · exact .inl (isDigit_of_mem_formatInt h0 hc)
    · exact .inr (by simpa using hc)
    · exact .inl (isDigit_of_mem_formatInt hend hc)

theorem Rng.text_ne_nil (r : Rng) : r.text.toList ≠ [] := by
  unfold Rng.text
  split_ifs
  · exact toList_formatInt_ne_nil _
  · simp [String.toList_append]

/-! ## What `Parse` reads -/

/-- A piece with no `-` is one id. -/
theorem loop_single (fuel : Nat) {b : String} {elem : Int} (hb : '-' ∉ b.toList)
    (h : parseInt b = some elem) (ranges : List String) (elems : Finset Int) :
    parse.loop fuel (b :: ranges) elems = parse.loop fuel ranges (insert elem elems) := by
  have hsplit : stringsSplitN b '-' 2 = [b] := by
    simp [stringsSplitN, splitN_of_not_mem hb]
  simp [parse.loop, hsplit, h]

/-- A range the right way round adds what its loop adds. -/
theorem loop_range (fuel : Nat) {r b0 b1 : String} {start end_ : Int}
    {elems elems' : Finset Int} (hsplit : stringsSplitN r '-' 2 = [b0, b1])
    (h0 : parseInt b0 = some start) (h1 : parseInt b1 = some end_) (hle : start ≤ end_)
    (hadd : addRange end_ fuel start elems = some elems') (ranges : List String) :
    parse.loop fuel (r :: ranges) elems = parse.loop fuel ranges elems' := by
  have hnot : ¬start > end_ := not_lt.mpr hle
  simp [parse.loop, hsplit, h0, h1, hnot, hadd]

/-- A range that `Parse` reads back within `fuel` turns of its loop: ids from `0` to
`MaxInt64`, from start to end, a loop that ends below `MaxInt64` unless it is one id, and
fewer ids than `fuel`. -/
structure Rng.ReadBack (fuel : Nat) (r : Rng) : Prop where
  nonneg : 0 ≤ r.start
  le : r.start ≤ r.end_
  le_max : r.end_ ≤ maxInt64
  ends : r.start < r.end_ → r.end_ < maxInt64
  fuel_gt : (r.end_ + 1 - r.start).toNat < fuel

/-- `Parse` reads the text of a range back as its ids. -/
theorem loop_text {fuel : Nat} {r : Rng} (hr : r.ReadBack fuel) (ranges : List String)
    (elems : Finset Int) :
    parse.loop fuel (r.text :: ranges) elems =
      parse.loop fuel ranges (elems ∪ r.toList.toFinset) := by
  have hdash : Char.isDigit '-' = false := by decide
  have hstart := parseInt_formatInt hr.nonneg (hr.le.trans hr.le_max)
  by_cases hone : r.start = r.end_
  · -- one id, written alone
    have htext : r.text = formatInt r.start := by simp [Rng.text, hone]
    have hids : r.toList = [r.start] := by simp [Rng.toList, intsFrom, hone]
    rw [htext, loop_single fuel (not_mem_formatInt hr.nonneg hdash) hstart, hids,
      List.toFinset_cons, List.toFinset_nil, Finset.union_insert, Finset.union_empty]
  · -- a range, written `start-end`, whose loop ends below `MaxInt64`
    have hlt : r.start < r.end_ := lt_of_le_of_ne hr.le hone
    have htext : r.text = formatInt r.start ++ String.singleton '-' ++ formatInt r.end_ := by
      simp only [Rng.text, hone, if_false]
      rfl
    have hsplit := stringsSplitN_two_of_not_mem (b := formatInt r.end_)
      (not_mem_formatInt hr.nonneg hdash)
    rw [htext, loop_range fuel hsplit hstart (parseInt_formatInt (hr.nonneg.trans hr.le)
      hr.le_max) hr.le (addRange_of_lt (hr.ends hlt) _ fuel r.start elems
        (minInt64_le_of_nonneg hr.nonneg) rfl hr.fuel_gt)]
    rfl

/-- `Parse` reads the texts of ranges back as their ids. -/
theorem loop_texts {fuel : Nat} :
    ∀ {rs : List Rng}, (∀ r ∈ rs, r.ReadBack fuel) → ∀ elems : Finset Int,
      parse.loop fuel (rs.map Rng.text) elems = some (.ok (elems ∪ (rs.flatMap Rng.toList).toFinset))
  | [], _, elems => by simp [parse.loop]
  | r :: rs, hrs, elems => by
      rw [List.map_cons, loop_text (hrs r List.mem_cons_self),
        loop_texts (fun r' hr' => hrs r' (List.mem_cons_of_mem r hr')), List.flatMap_cons,
        List.toFinset_append, Finset.union_assoc]

/-- Every id `Parse` adds is an `int` from `0` on: the text before a piece's first `-` holds
none, so neither a single id nor the start of a range is negative. -/
theorem loop_bounded {fuel : Nat} :
    ∀ {ranges : List String} {elems r : Finset Int}, (∀ x ∈ elems, 0 ≤ x ∧ x ≤ maxInt64) →
      parse.loop fuel ranges elems = some (.ok r) → ∀ x ∈ r, 0 ≤ x ∧ x ≤ maxInt64
  | [], elems, r, helems, h => by
      simp only [parse.loop, Option.some.injEq, Except.ok.injEq] at h
      exact h ▸ helems
  | piece :: ranges, elems, r, helems, h => by
      rcases stringsSplitN_two_cases piece '-' with ⟨hno, hsplit⟩ | ⟨b0, b1, hno, hsplit⟩
      · -- one id
        cases hv : parseInt piece with
        | none => simp [parse.loop, hsplit, hv] at h
        | some v =>
            rw [loop_single fuel hno hv] at h
            refine loop_bounded (fun x hx => ?_) h
            rcases Finset.mem_insert.mp hx with rfl | hx
            · exact ⟨parseInt_nonneg hno hv, (parseInt_mem hv).2⟩
            · exact helems x hx
      · -- a range, whose start is not negative
        cases h0 : parseInt b0 with
        | none => simp [parse.loop, hsplit, h0] at h
        | some start =>
          cases h1 : parseInt b1 with
          | none => simp [parse.loop, hsplit, h0, h1] at h
          | some end_ =>
            by_cases hgt : start > end_
            · simp [parse.loop, hsplit, h0, h1, hgt] at h
            cases hadd : addRange end_ fuel start elems with
            | none => simp [parse.loop, hsplit, h0, h1, hgt, hadd] at h
            | some elems' =>
                rw [loop_range fuel hsplit h0 h1 (not_lt.mp hgt) hadd] at h
                refine loop_bounded (fun x hx => ?_) h
                have hstart := parseInt_nonneg hno h0
                rcases addRange_subset (parseInt_mem h1).2 (parseInt_mem h0).1 hadd x hx with
                  hx | hx
                · exact helems x hx
                · exact ⟨hstart.trans hx.1, hx.2.trans (parseInt_mem h1).2⟩

/-- Every id of a set `Parse` returns is an `int` from `0` on. -/
theorem parse_bounded {fuel : Nat} {t : String} {s : CPUSet} (h : parse fuel t = some (.ok s)) :
    ∀ x ∈ s.elems, 0 ≤ x ∧ x ≤ maxInt64 := by
  unfold parse at h
  split_ifs at h with hempty
  · simp only [Option.some.injEq, Except.ok.injEq] at h
    subst h
    simp
  · obtain ⟨result, hloop, hres⟩ := Option.map_eq_some_iff.mp h
    cases result with
    | error e => simp [Except.map] at hres
    | ok elems =>
        simp only [Except.map, Except.ok.injEq] at hres
        subst hres
        exact loop_bounded (by simp) hloop

/-- The loop over the pieces returns when no range ends at `MaxInt64`: a range loop adds at
most `2 ^ 63` ids from `0` on. -/
theorem loop_terminates :
    ∀ {ranges : List String} (elems : Finset Int),
      (∀ r ∈ ranges, ∀ b0 b1, stringsSplitN r '-' 2 = [b0, b1] → parseInt b1 ≠ some maxInt64) →
      parse.loop (2 ^ 63 + 1) ranges elems ≠ none
  | [], elems, _ => by simp [parse.loop]
  | piece :: ranges, elems, h => by
      have hrest := fun r hr => h r (List.mem_cons_of_mem piece hr)
      rcases stringsSplitN_two_cases piece '-' with ⟨hno, hsplit⟩ | ⟨b0, b1, hno, hsplit⟩
      · cases hv : parseInt piece with
        | none => simp [parse.loop, hsplit, hv]
        | some v =>
            rw [loop_single _ hno hv]
            exact loop_terminates _ hrest
      · have hend := h piece List.mem_cons_self b0 b1 hsplit
        cases h0 : parseInt b0 with
        | none => simp [parse.loop, hsplit, h0]
        | some start =>
          cases h1 : parseInt b1 with
          | none => simp [parse.loop, hsplit, h0, h1]
          | some end_ =>
            by_cases hgt : start > end_
            · simp [parse.loop, hsplit, h0, h1, hgt]
            · -- the range loop ends: its end is below `MaxInt64` and its start from `0` on
              have hstart := parseInt_nonneg hno h0
              have hlt : end_ < maxInt64 :=
                lt_of_le_of_ne (parseInt_mem h1).2 fun heq => hend (heq ▸ h1)
              have hfuel : (end_ + 1 - start).toNat < 2 ^ 63 + 1 := by
                unfold maxInt64 at hlt
                omega
              rw [loop_range _ hsplit h0 h1 (not_lt.mp hgt) (addRange_of_lt hlt _ _ start elems
                (minInt64_le_of_nonneg hstart) rfl hfuel)]
              exact loop_terminates _ hrest

/-- `Parse` returns, with a set or an error, on every list none of whose ranges ends at
`MaxInt64`. -/
theorem parse_terminates (s : String)
    (h : ∀ r ∈ stringsSplit s ',', ∀ b0 b1, stringsSplitN r '-' 2 = [b0, b1] →
      parseInt b1 ≠ some maxInt64) :
    parse (2 ^ 63 + 1) s ≠ none := by
  unfold parse
  split_ifs
  · simp
  · rw [Ne, Option.map_eq_none_iff]
    exact loop_terminates ∅ h

/-- A list that is one range from `start` to `MaxInt64` never returns. -/
theorem parse_range_to_maxInt64 {start : Int} (h0 : 0 ≤ start) (hle : start ≤ maxInt64)
    {s : String} (hs : s = formatInt start ++ "-" ++ formatInt maxInt64) (fuel : Nat) :
    parse fuel s = none := by
  have hdigit : ∀ c : Char, c.isDigit = false → c ∉ (formatInt start).toList ∧
      c ∉ (formatInt maxInt64).toList :=
    fun c hc => ⟨not_mem_formatInt h0 hc, not_mem_formatInt (by decide) hc⟩
  have hne : s ≠ "" := by
    rw [hs, ne_eq, ← String.toList_inj]
    simp [String.toList_append]
  have hpieces : stringsSplit s ',' = [s] := by
    have hcomma : ',' ∉ s.toList := by
      rw [hs]
      simp [String.toList_append, (hdigit ',' (by decide)).1, (hdigit ',' (by decide)).2]
    simp [stringsSplit, stringsSplitN, splitN_of_not_mem hcomma]
  have hsplit : stringsSplitN s '-' 2 = [formatInt start, formatInt maxInt64] := by
    rw [hs]
    exact stringsSplitN_two_of_not_mem (hdigit '-' (by decide)).1
  have hend : parseInt (formatInt maxInt64) = some maxInt64 := parseInt_formatInt (by decide) le_rfl
  have hnot : ¬start > maxInt64 := not_lt.mpr hle
  simp [parse, hne, hpieces, parse.loop, hsplit, parseInt_formatInt h0 hle, hend, hnot,
    addRange_maxInt64 fuel start ∅ hle]

theorem parse_never_returns_at_maxInt64 :
    (∀ fuel, parse fuel "9223372036854775807-9223372036854775807" = none) ∧
      ∀ fuel, parse fuel "0-9223372036854775807" = none :=
  ⟨parse_range_to_maxInt64 (by decide) le_rfl (by decide),
    parse_range_to_maxInt64 le_rfl (by decide) (by decide)⟩

/-! ## What `String` writes -/

/-- `ranges` are the maximal runs of `ids`: each goes from its start to its end, each starts
past the end of every range before it with a gap, and together they list `ids` in order. -/
structure Runs (ranges : List Rng) (ids : List Int) : Prop where
  le : ∀ r ∈ ranges, r.start ≤ r.end_
  gap : ranges.Pairwise fun a b => a.end_ + 1 < b.start
  ids_eq : ranges.flatMap Rng.toList = ids

theorem Runs.mem {ranges : List Rng} {ids : List Int} (h : Runs ranges ids) {r : Rng}
    (hr : r ∈ ranges) {x : Int} (hx : x ∈ r.toList) : x ∈ ids :=
  h.ids_eq ▸ List.mem_flatMap.mpr ⟨r, hr, hx⟩

theorem Rng.toList_single (e : Int) : (⟨e, e⟩ : Rng).toList = [e] := by
  simp [Rng.toList, intsFrom]

/-- One turn of the loop of `String`: an id past every id read so far extends the last run
when it is adjacent to its end, and starts a new run otherwise. -/
theorem runs_extendOrStart {acc : List Rng} {consumed : List Int} {e : Int}
    (h : Runs acc.reverse consumed) (hlt : ∀ x ∈ consumed, x < e)
    (hmin : ∀ x ∈ consumed, minInt64 ≤ x) (he : e ≤ maxInt64) :
    Runs (extendOrStart acc e).reverse (consumed ++ [e]) := by
  cases acc with
  | nil =>
      have hc : consumed = [] := by simpa using h.ids_eq.symm
      subst hc
      exact ⟨by simp [extendOrStart], by simp [extendOrStart], by
        simp [extendOrStart, Rng.toList_single]⟩
  | cons lastRange more =>
      have hle := h.le lastRange (by simp)
      -- the last run ends at the last id read, below `e`
      have hmem : lastRange.end_ ∈ consumed :=
        h.mem (by simp) (Rng.mem_toList.mpr ⟨hle, le_rfl⟩)
      have hend := hlt _ hmem
      have hwrap : wrap64 (lastRange.end_ + 1) = lastRange.end_ + 1 :=
        wrap64_of_mem (by have := hmin _ hmem; omega) (by omega)
      have hgap := h.gap
      have hids := h.ids_eq
      rw [List.reverse_cons, List.pairwise_append] at hgap
      rw [List.reverse_cons, List.flatMap_append, List.flatMap_singleton] at hids
      have hmore : ∀ r ∈ more, r.start ≤ r.end_ := fun r hr => h.le r (by simp [hr])
      simp only [extendOrStart, hwrap]
      split_ifs with hext
      · -- `e` extends the last run
        subst hext
        refine ⟨?_, ?_, ?_⟩
        · intro r hr
          simp only [List.reverse_cons, List.mem_append, List.mem_reverse,
            List.mem_singleton] at hr
          rcases hr with hr | rfl
          · exact hmore r hr
          · dsimp only
            omega
        · rw [List.reverse_cons, List.pairwise_append]
          refine ⟨hgap.1, List.pairwise_singleton _ _, fun a ha b hb => ?_⟩
          rw [List.mem_singleton] at hb
          subst hb
          exact hgap.2.2 a ha lastRange (List.mem_singleton_self _)
        · rw [List.reverse_cons, List.flatMap_append, List.flatMap_singleton,
            Rng.toList_end_succ lastRange hle, ← hids, List.append_assoc]
      · -- `e` starts a new run, past a gap
        have hnew : lastRange.end_ + 1 < e := by omega
        refine ⟨?_, ?_, ?_⟩
        · intro r hr
          simp only [List.reverse_cons, List.mem_append, List.mem_reverse,
            List.mem_singleton] at hr
          rcases hr with (hr | rfl) | rfl
          · exact hmore r hr
          · exact hle
          · exact le_rfl
        · rw [List.reverse_cons, List.pairwise_append, List.reverse_cons]
          refine ⟨by simpa using h.gap, List.pairwise_singleton _ _,
            fun a ha b hb => ?_⟩
          rw [List.mem_singleton] at hb
          subst hb
          simp only [List.mem_append, List.mem_reverse, List.mem_singleton] at ha
          rcases ha with ha | rfl
          · have := hgap.2.2 a (List.mem_reverse.mpr ha) lastRange (List.mem_singleton_self _)
            dsimp only
            omega
          · exact hnew
        · rw [List.reverse_cons, List.flatMap_append, List.flatMap_singleton,
            Rng.toList_single, List.reverse_cons, List.flatMap_append, List.flatMap_singleton,
            ← hids]

/-- The loop of `String` over sorted `int`s builds their maximal runs. -/
theorem runs_foldl :
    ∀ (l : List Int) {acc : List Rng} {consumed : List Int}, Runs acc.reverse consumed →
      (consumed ++ l).Pairwise (· < ·) → (∀ x ∈ consumed ++ l, minInt64 ≤ x ∧ x ≤ maxInt64) →
      Runs (l.foldl extendOrStart acc).reverse (consumed ++ l)
  | [], acc, consumed, h, _, _ => by simpa using h
  | e :: l, acc, consumed, h, hsorted, hrange => by
      have hlt : ∀ x ∈ consumed, x < e := fun x hx =>
        (List.pairwise_append.mp hsorted).2.2 x hx e List.mem_cons_self
      have hstep := runs_extendOrStart h hlt
        (fun x hx => (hrange x (List.mem_append_left _ hx)).1)
        (hrange e (List.mem_append_right _ List.mem_cons_self)).2
      rw [List.foldl_cons]
      have hrest := runs_foldl l hstep (by simpa using hsorted) (by simpa using hrange)
      simpa using hrest

theorem Rng.comma_not_mem_text {r : Rng} (h0 : 0 ≤ r.start) (hle : r.start ≤ r.end_) :
    ',' ∉ r.text.toList := fun hc => by
  rcases Rng.mem_text h0 hle hc with h | h
  · exact absurd h (by decide)
  · exact absurd h (by decide)

/-- The buffer of `String`: each range's text followed by a comma. -/
theorem toList_foldl_text (ranges : List Rng) (b : String) :
    (ranges.foldl (fun result r => result ++ r.text ++ ",") b).toList =
      b.toList ++ ranges.flatMap fun r => r.text.toList ++ [','] := by
  induction ranges generalizing b with
  | nil => simp
  | cons r ranges ih =>
      rw [List.foldl_cons, ih]
      simp [String.toList_append]

/-- `String` writes the maximal runs of the sorted ids, joined by commas. -/
theorem string_eq (s : CPUSet) (hs : ∀ x ∈ s.elems, 0 ≤ x ∧ x ≤ maxInt64) :
    ∃ ranges : List Rng, Runs ranges s.toSlice ∧
      s.string = String.intercalate "," (ranges.map Rng.text) := by
  have hcard := length_setsIntList s.elems
  cases hslice : s.toSlice with
  | nil =>
      -- no id: the empty text
      have hempty : s.isEmpty = true := by
        rw [CPUSet.toSlice] at hslice
        simp [CPUSet.isEmpty, ← hcard, hslice]
      exact ⟨[], ⟨by simp, List.Pairwise.nil, rfl⟩, by simp [CPUSet.string, hempty]⟩
  | cons first elems =>
      have hne : s.isEmpty = false := by
        rw [CPUSet.toSlice] at hslice
        simp [CPUSet.isEmpty, ← hcard, hslice]
      have hsorted : (first :: elems).Pairwise (· < ·) := hslice ▸ setsIntList_pairwise s.elems
      have hmem : ∀ x ∈ first :: elems, x ∈ s.elems := fun x hx =>
        mem_setsIntList.mp (by rw [← CPUSet.toSlice, hslice]; exact hx)
      -- the runs the loop builds, from no run and no id read
      have hruns : Runs (elems.foldl extendOrStart [⟨first, first⟩]).reverse (first :: elems) := by
        have hbuilt := @runs_foldl (first :: elems) [] [] ⟨by simp, List.Pairwise.nil, rfl⟩
          hsorted fun x hx => ⟨minInt64_le_of_nonneg (hs x (hmem x hx)).1, (hs x (hmem x hx)).2⟩
        rwa [List.foldl_cons, List.nil_append] at hbuilt
      set ranges := (elems.foldl extendOrStart [⟨first, first⟩]).reverse with hranges
      refine ⟨ranges, hruns, ?_⟩
      simp only [CPUSet.string, hne, hslice, Bool.false_eq_true, if_false, ← hranges]
      have hranges_ne : ranges ≠ [] := by
        intro h
        have := hruns.ids_eq
        rw [h] at this
        simp at this
      obtain ⟨r, rs, hrs⟩ := List.exists_cons_of_ne_nil hranges_ne
      rw [hrs]
      -- no text is empty or holds a comma
      have htexts : ∀ q ∈ r.text :: rs.map Rng.text, q.toList ≠ [] ∧ ',' ∉ q.toList := by
        intro q hq
        rw [← List.map_cons, ← hrs, List.mem_map] at hq
        obtain ⟨r', hr', rfl⟩ := hq
        have hle := hruns.le r' hr'
        have hstart := hmem _ (hruns.mem hr' (Rng.mem_toList.mpr ⟨le_rfl, hle⟩))
        exact ⟨r'.text_ne_nil, Rng.comma_not_mem_text (hs _ hstart).1 hle⟩
      refine trimRight_of_toList htexts ?_
      rw [toList_foldl_text]
      simp [List.flatMap_map]

/-- `Parse` reads back what `String` writes for a set of ids from `0` to `MaxInt64`, unless the
set holds both `MaxInt64 - 1` and `MaxInt64`. -/
theorem parse_string_of (s : CPUSet) (hs : ∀ x ∈ s.elems, 0 ≤ x ∧ x ≤ maxInt64)
    (hends : ¬(maxInt64 - 1 ∈ s.elems ∧ maxInt64 ∈ s.elems)) :
    parse (s.elems.card + 1) s.string = some (.ok s) := by
  obtain ⟨ranges, hruns, hstr⟩ := string_eq s hs
  have hin : ∀ r ∈ ranges, ∀ x ∈ r.toList, x ∈ s.elems := fun r hr x hx =>
    mem_setsIntList.mp (hruns.mem hr hx)
  -- every run is read back within the fuel
  have hread : ∀ r ∈ ranges, r.ReadBack (s.elems.card + 1) := by
    intro r hr
    have hle := hruns.le r hr
    have hstart := hs _ (hin r hr r.start (Rng.mem_toList.mpr ⟨le_rfl, hle⟩))
    have hendMem := hin r hr r.end_ (Rng.mem_toList.mpr ⟨hle, le_rfl⟩)
    have hlen : r.toList.length ≤ s.elems.card := by
      rw [← length_setsIntList, ← CPUSet.toSlice, ← hruns.ids_eq, List.length_flatMap]
      exact List.le_sum_of_mem (List.mem_map_of_mem hr)
    refine ⟨hstart.1, hle, (hs _ hendMem).2, fun hlt => ?_, by rw [← Rng.length_toList]; omega⟩
    -- a run that ends at `MaxInt64` holds `MaxInt64 - 1` as well
    refine lt_of_le_of_ne (hs _ hendMem).2 fun heq => hends ⟨?_, heq ▸ hendMem⟩
    exact hin r hr _ (Rng.mem_toList.mpr ⟨by omega, by omega⟩)
  have hids : (ranges.flatMap Rng.toList).toFinset = s.elems := by
    rw [hruns.ids_eq, CPUSet.toSlice, setsIntList_toFinset]
  rw [hstr]
  cases ranges with
  | nil =>
      have hempty : s.elems = ∅ := by simpa using hids.symm
      cases s
      simp_all [parse]
  | cons r rs =>
      have hne : String.intercalate "," ((r :: rs).map Rng.text) ≠ "" := by
        intro h
        have htext := congrArg String.toList h
        rw [List.map_cons, show ("," : String) = String.singleton ',' from rfl,
          toList_intercalate_singleton] at htext
        exact r.text_ne_nil (List.append_eq_nil_iff.mp htext).1
      have hpieces : stringsSplit (String.intercalate "," ((r :: rs).map Rng.text)) ',' =
          (r :: rs).map Rng.text := by
        refine stringsSplit_intercalate (by simp) fun q hq => ?_
        obtain ⟨r', hr', rfl⟩ := List.mem_map.mp hq
        exact Rng.comma_not_mem_text (hread r' hr').nonneg (hread r' hr').le
      rw [parse, if_neg hne, hpieces, loop_texts hread, Finset.empty_union, hids]
      rfl

/-- The set `{MaxInt64 - 1, MaxInt64}` is written as a range that ends at `MaxInt64`, on which
`Parse` never returns, although `Parse` reads it from its ids written one by one. -/
theorem parse_string_wraps :
    (newCPUSet [maxInt64 - 1, maxInt64]).string = "9223372036854775806-9223372036854775807" ∧
      (∀ fuel, parse fuel (newCPUSet [maxInt64 - 1, maxInt64]).string = none) ∧
      parse 1 "9223372036854775806,9223372036854775807" =
        some (.ok (newCPUSet [maxInt64 - 1, maxInt64])) := by
  have hstr : (newCPUSet [maxInt64 - 1, maxInt64]).string =
      "9223372036854775806-9223372036854775807" := by
    simp only [CPUSet.string,
      toSlice_newCPUSet (by decide : [maxInt64 - 1, maxInt64].Pairwise (· < ·))]
    decide
  have hpieces : stringsSplit "9223372036854775806,9223372036854775807" ',' =
      ["9223372036854775806", "9223372036854775807"] := by decide
  refine ⟨hstr, fun fuel => ?_, ?_⟩
  · rw [hstr]
    exact @parse_range_to_maxInt64 (maxInt64 - 1) (by decide) (by decide) _ (by decide) fuel
  · rw [parse, if_neg (by decide), hpieces, @loop_single 1 _ (maxInt64 - 1) (by decide) (by decide),
      @loop_single 1 _ maxInt64 (by decide) (by decide)]
    simp only [parse.loop, Option.map_some, newCPUSet, List.toFinset_cons, List.toFinset_nil,
      insert_empty_eq, Finset.pair_comm]
    rfl

end Cpuset
end Kubernetes
