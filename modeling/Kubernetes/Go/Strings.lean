import Mathlib

/-!
# The Go `strings` functions used by the models

Go strings are byte sequences and Lean strings are sequences of Unicode scalar values.
The functions below only compare, concatenate and cut strings at ASCII characters, so
every statement proved about them holds for either reading; Go's `len` is modelled by
`String.utf8ByteSize`, which is what it counts.

The list layer (`List.*` lemmas in the first section) is where the work happens; the
string functions are thin wrappers over `String.toList`, with one characterisation lemma
each, so that callers never unfold them.
-/

namespace Kubernetes
namespace Go

section Lists

variable {α : Type _}

/-- A prefix of `l₂ ++ l₃` whose last element is not in the tail `l₃` (every tail element
satisfies `p`, the last element of the prefix does not) is already a prefix of `l₂`.
This is what makes a trailing-wildcard pattern compose: trimming the wildcard run of a
longer pattern never cuts into the part a shorter pattern must match. -/
theorem prefix_of_prefix_append_of_last {p : α → Bool} {l₁ l₂ l₃ : List α}
    (h : l₁ <+: l₂ ++ l₃) (htail : ∀ x ∈ l₃, p x = true)
    (hlast : ∀ hne : l₁ ≠ [], p (l₁.getLast hne) = false) : l₁ <+: l₂ := by
  rcases List.prefix_or_prefix_of_prefix h (List.prefix_append l₂ l₃) with hle | hge
  · exact hle
  · obtain ⟨t, rfl⟩ := hge
    have ht : t <+: l₃ := (List.prefix_append_right_inj l₂).mp h
    cases t using List.reverseRecOn with
    | nil => simp
    | append_singleton t x _ =>
        have hx : x ∈ l₃ := ht.subset (by simp)
        have hne : l₂ ++ (t ++ [x]) ≠ [] := by simp
        have hlastx : (l₂ ++ (t ++ [x])).getLast hne = x := by
          simp [← List.append_assoc]
        have hfalse := hlast hne
        rw [hlastx, htail x hx] at hfalse
        exact absurd hfalse (by decide)

/-- The text before and after the first separator, as Go's `strings.Cut` finds them. -/
def cut [DecidableEq α] (sep : α) : List α → Option (List α × List α)
  | [] => none
  | x :: xs => if x = sep then some ([], xs) else (cut sep xs).map fun p => (x :: p.1, p.2)
attribute [grind] cut

/-- Splitting at a one-element separator, at most `n` pieces, as Go's `strings.SplitN`
does for a one-character separator: the last piece keeps the rest of the input. -/
def splitN [DecidableEq α] (sep : α) : List α → Nat → List (List α)
  | _, 0 => []
  | l, 1 => [l]
  | l, n + 2 =>
      match cut sep l with
      | none => [l]
      | some (before, after) => before :: splitN sep after (n + 1)
attribute [grind] splitN

theorem cut_append [DecidableEq α] {sep : α} {a b : List α} (ha : sep ∉ a) :
    cut sep (a ++ sep :: b) = some (a, b) := by
  induction a with
  | nil => simp [cut]
  | cons x xs ih =>
      have hx : x ≠ sep := fun h => ha (h ▸ List.mem_cons_self)
      have hxs : sep ∉ xs := fun h => ha (List.mem_cons_of_mem x h)
      simp [cut, hx, ih hxs]

/-- Cutting `a ++ sep :: b` in two when `a` holds no separator gives back `a` and `b`. -/
theorem splitN_two_append [DecidableEq α] {sep : α} {a b : List α} (ha : sep ∉ a) :
    splitN sep (a ++ sep :: b) 2 = [a, b] := by
  simp [splitN, cut_append ha]

theorem cut_of_not_mem [DecidableEq α] {sep : α} {a : List α} (ha : sep ∉ a) :
    cut sep a = none := by
  induction a with
  | nil => rfl
  | cons x xs ih =>
      have hx : x ≠ sep := fun h => ha (h ▸ List.mem_cons_self)
      simp [cut, hx, ih (fun h => ha (List.mem_cons_of_mem x h))]

theorem splitN_of_not_mem [DecidableEq α] {sep : α} {a : List α} (ha : sep ∉ a) :
    ∀ {n : Nat}, 0 < n → splitN sep a n = [a]
  | 1, _ => rfl
  | n + 2, _ => by simp [splitN, cut_of_not_mem ha]

/-- Pieces without the separator, each but the first after one, split back into the
pieces when enough pieces are allowed. -/
theorem splitN_append_flatMap [DecidableEq α] {sep : α} {p : List α} {rest : List (List α)}
    (hp : sep ∉ p) (hrest : ∀ q ∈ rest, sep ∉ q) {n : Nat} (hn : rest.length < n) :
    splitN sep (p ++ rest.flatMap (sep :: ·)) n = p :: rest := by
  induction rest generalizing p n with
  | nil => simpa using splitN_of_not_mem hp hn
  | cons q rest ih =>
      obtain ⟨m, rfl⟩ : ∃ m, n = m + 2 := ⟨n - 2, by simp at hn; omega⟩
      have hq := hrest q List.mem_cons_self
      have htail := ih hq (fun q' hq' => hrest q' (List.mem_cons_of_mem q hq')) (n := m + 1)
        (by simp at hn; omega)
      simp only [List.flatMap_cons, List.cons_append]
      simp [splitN, cut_append hp, htail]

/-- What `cut` finds: the input is the text before, the separator and the text after. -/
theorem eq_append_of_cut_eq_some [DecidableEq α] {sep : α} :
    ∀ {l a b : List α}, cut sep l = some (a, b) → l = a ++ sep :: b
  | [], _, _, h => by simp [cut] at h
  | x :: xs, a, b, h => by
      by_cases hx : x = sep
      · simp only [cut, hx, if_true, Option.some.injEq, Prod.mk.injEq] at h
        obtain ⟨rfl, rfl⟩ := h
        rw [hx, List.nil_append]
      · simp only [cut, hx, if_false, Option.map_eq_some_iff, Prod.mk.injEq] at h
        obtain ⟨⟨a', b'⟩, hcut, rfl, rfl⟩ := h
        rw [eq_append_of_cut_eq_some hcut]
        rfl

/-- The pieces are made of the input's elements. -/
theorem mem_of_mem_splitN [DecidableEq α] {sep x : α} {q : List α} :
    ∀ {l : List α} {n : Nat}, q ∈ splitN sep l n → x ∈ q → x ∈ l
  | l, 1, hq, hx => by simp_all [splitN]
  | l, n + 2, hq, hx => by
      unfold splitN at hq
      split at hq
      · simp_all
      · next before after hcut =>
        rw [eq_append_of_cut_eq_some hcut]
        rcases List.mem_cons.mp hq with rfl | hq
        · exact List.mem_append_left _ hx
        · exact List.mem_append_right _ (List.mem_cons_of_mem _ (mem_of_mem_splitN hq hx))

/-- The text before the first separator holds none. -/
theorem not_mem_of_cut_eq_some [DecidableEq α] {sep : α} :
    ∀ {l a b : List α}, cut sep l = some (a, b) → sep ∉ a
  | [], _, _, h => by simp [cut] at h
  | x :: xs, a, b, h => by
      by_cases hx : x = sep
      · simp only [cut, hx, if_true, Option.some.injEq, Prod.mk.injEq] at h
        rw [← h.1]
        exact List.not_mem_nil
      · simp only [cut, hx, if_false, Option.map_eq_some_iff, Prod.mk.injEq] at h
        obtain ⟨⟨a', b'⟩, hcut, rfl, rfl⟩ := h
        simp only [List.mem_cons, not_or]
        exact ⟨Ne.symm hx, not_mem_of_cut_eq_some hcut⟩

/-- `cut` finds no separator only in a text that holds none. -/
theorem not_mem_of_cut_eq_none [DecidableEq α] {sep : α} :
    ∀ {l : List α}, cut sep l = none → sep ∉ l
  | [], _ => List.not_mem_nil
  | x :: xs, h => by
      by_cases hx : x = sep
      · simp [cut, hx] at h
      · simp only [cut, hx, if_false, Option.map_eq_none_iff] at h
        simp only [List.mem_cons, not_or]
        exact ⟨Ne.symm hx, not_mem_of_cut_eq_none h⟩

/-- With more pieces allowed than the input has separators, no piece holds one. -/
theorem sep_not_mem_splitN [DecidableEq α] {sep : α} {q : List α} :
    ∀ {l : List α} {n : Nat}, l.count sep < n → q ∈ splitN sep l n → sep ∉ q
  | l, 1, hcount, hq => by
      rw [show splitN sep l 1 = [l] from rfl, List.mem_singleton] at hq
      subst hq
      exact List.count_eq_zero.mp (by omega)
  | l, n + 2, hcount, hq => by
      unfold splitN at hq
      split at hq
      · next hcut =>
        rw [List.mem_singleton.mp hq]
        exact not_mem_of_cut_eq_none hcut
      · next before after hcut =>
        rcases List.mem_cons.mp hq with rfl | hq
        · exact not_mem_of_cut_eq_some hcut
        · -- the separator `cut` found is one fewer left for the rest
          have hl := eq_append_of_cut_eq_some hcut
          rw [hl, List.count_append, List.count_cons_self] at hcount
          exact sep_not_mem_splitN (by omega) hq

/-- Every element of the input but a separator lies in one of the pieces. -/
theorem exists_mem_splitN_of_mem [DecidableEq α] {sep x : α} (hx : x ≠ sep) :
    ∀ {l : List α} {n : Nat}, 0 < n → x ∈ l → ∃ q ∈ splitN sep l n, x ∈ q
  | l, 1, _, hl => ⟨l, by simp [splitN], hl⟩
  | l, n + 2, _, hl => by
      unfold splitN
      split
      · exact ⟨l, List.mem_singleton_self l, hl⟩
      · next before after hcut =>
        rw [eq_append_of_cut_eq_some hcut] at hl
        rcases List.mem_append.mp hl with hb | ha
        · exact ⟨before, List.mem_cons_self, hb⟩
        · have ha : x ∈ after := (List.mem_cons.mp ha).resolve_left hx
          obtain ⟨q, hq, hxq⟩ := exists_mem_splitN_of_mem hx (Nat.succ_pos n) ha
          exact ⟨q, List.mem_cons_of_mem _ hq, hxq⟩

theorem length_le_length_flatMap_cons (sep : α) (rest : List (List α)) :
    rest.length ≤ (rest.flatMap (sep :: ·)).length := by
  induction rest with
  | nil => simp
  | cons q rest ih =>
      rw [List.flatMap_cons, List.length_append, List.length_cons, List.length_cons]
      omega

/-- Joining pieces none of which is empty gives at least one element for each. -/
theorem length_le_length_intercalate (sep : List α) :
    ∀ {xs : List (List α)}, (∀ x ∈ xs, x ≠ []) → xs.length ≤ (sep.intercalate xs).length
  | [], _ => by simp
  | [x], h => by
      rw [List.intercalate_singleton, List.length_singleton]
      exact List.length_pos_iff.mpr (h x (by simp))
  | x :: y :: ys, h => by
      have hx : 0 < x.length := List.length_pos_iff.mpr (h x (by simp))
      have ih : (y :: ys).length ≤ (sep.intercalate (y :: ys)).length :=
        length_le_length_intercalate sep (fun z hz => h z (List.mem_cons_of_mem x hz))
      rw [List.intercalate_cons_cons]
      simp only [List.length_append, List.length_cons] at ih ⊢
      omega

/-- An element of pieces joined by a separator is in the separator or in a piece. -/
theorem mem_of_mem_intercalate {sep : List α} {x : α} :
    ∀ {xs : List (List α)}, x ∈ sep.intercalate xs → x ∈ sep ∨ ∃ l ∈ xs, x ∈ l
  | [], h => by simp at h
  | [l], h => .inr ⟨l, List.mem_singleton_self l, by simpa using h⟩
  | l :: l' :: ls, h => by
      rw [List.intercalate_cons_cons] at h
      simp only [List.mem_append] at h
      rcases h with (h | h) | h
      · exact .inr ⟨l, List.mem_cons_self, h⟩
      · exact .inl h
      · rcases mem_of_mem_intercalate h with h | ⟨m, hm, hxm⟩
        · exact .inl h
        · exact .inr ⟨m, List.mem_cons_of_mem l hm, hxm⟩

/-- Inserting new elements one by one puts each in front. -/
theorem foldl_insert_of_nodup [DecidableEq α] :
    ∀ {l s : List α}, (s ++ l).Nodup → l.foldl (fun s x => s.insert x) s = l.reverse ++ s
  | [], s, _ => by simp
  | x :: l, s, h => by
      have h' : (x :: (s ++ l)).Nodup := List.perm_middle.nodup_iff.mp h
      have hx : x ∉ s := fun hx => (List.nodup_cons.mp h').1 (List.mem_append_left l hx)
      rw [List.foldl_cons, List.insert_of_not_mem hx, foldl_insert_of_nodup (by simpa using h'),
        List.reverse_cons, List.append_assoc, List.singleton_append]

end Lists

/-! ## Strings -/

/-- `strings.HasPrefix(s, prefix)`. -/
def hasPrefix (s pre : String) : Bool :=
  pre.toList.isPrefixOf s.toList
attribute [grind] hasPrefix

/-- `strings.HasSuffix(s, suffix)`. -/
def hasSuffix (s suf : String) : Bool :=
  suf.toList.isSuffixOf s.toList
attribute [grind] hasSuffix

/-- `strings.TrimSuffix(s, suffix)`. -/
def trimSuffix (s suf : String) : String :=
  if hasSuffix s suf then String.ofList (s.toList.take (s.toList.length - suf.toList.length)) else s
attribute [grind] trimSuffix

/-- `strings.Contains(s, c)` for a one-character `c`. -/
def containsChar (s : String) (c : Char) : Bool :=
  s.toList.contains c
attribute [grind] containsChar

/-- `strings.TrimRight(s, cutset)` for a one-character cutset: every trailing `c` is
removed. -/
def trimRight (s : String) (c : Char) : String :=
  String.ofList (s.toList.rdropWhile (· == c))
attribute [grind] trimRight

/-- `strings.SplitN(s, sep, n)` for a one-character separator. -/
def stringsSplitN (s : String) (sep : Char) (n : Nat) : List String :=
  (splitN sep s.toList n).map String.ofList
attribute [grind] stringsSplitN

/-- `strings.Split(s, sep)` for a one-character separator: as many pieces as there are
separators, plus one. -/
def stringsSplit (s : String) (sep : Char) : List String :=
  stringsSplitN s sep (s.toList.length + 1)
attribute [grind] stringsSplit

theorem hasPrefix_iff {s pre : String} :
    hasPrefix s pre = true ↔ pre.toList <+: s.toList := by
  simp [hasPrefix]

theorem hasSuffix_iff {s suf : String} :
    hasSuffix s suf = true ↔ suf.toList <:+ s.toList := by
  simp [hasSuffix]

theorem containsChar_iff {s : String} {c : Char} :
    containsChar s c = true ↔ c ∈ s.toList := by
  simp [containsChar]

@[simp] theorem toList_trimRight (s : String) (c : Char) :
    (trimRight s c).toList = s.toList.rdropWhile (· == c) := by
  simp [trimRight]

/-- A string is its trimmed form followed by a run of the trimmed character. -/
theorem toList_eq_trimRight_append (s : String) (c : Char) :
    ∃ run : List Char, s.toList = (trimRight s c).toList ++ run ∧ ∀ x ∈ run, x = c := by
  refine ⟨s.toList.rtakeWhile (· == c), ?_, ?_⟩
  · rw [toList_trimRight, List.rdropWhile_append_rtakeWhile]
  · intro x hx
    simpa using List.mem_rtakeWhile_imp hx

/-- The trimmed form never ends in the trimmed character. -/
theorem trimRight_getLast_ne (s : String) (c : Char) (hne : (trimRight s c).toList ≠ []) :
    ((trimRight s c).toList.getLast hne == c) = false := by
  have hne' : s.toList.rdropWhile (· == c) ≠ [] := by simpa using hne
  have := List.rdropWhile_last_not _ _ hne'
  simpa using this

/-- Trailing-wildcard patterns compose: if `pre ++ c*` is a prefix of `mid ++ c*` up to
the wildcard, then `pre` is a prefix of the base of `mid`.  Stated with the base `b` and
the run explicitly, which is the shape all callers have. -/
theorem trimRight_prefix_of_prefix_append {outer : String} {c : Char} {b run : List Char}
    (h : (trimRight outer c).toList <+: b ++ run) (hrun : ∀ x ∈ run, x = c) :
    (trimRight outer c).toList <+: b := by
  refine prefix_of_prefix_append_of_last (p := (· == c)) h ?_ ?_
  · intro x hx
    simp [hrun x hx]
  · exact trimRight_getLast_ne outer c

/-- A string is every string it is a suffix of once it is at least as long in bytes. -/
theorem eq_of_suffix_of_utf8ByteSize_le {s t : String} (h : s.toList <:+ t.toList)
    (hle : t.utf8ByteSize ≤ s.utf8ByteSize) : s = t := by
  obtain ⟨w, hw⟩ := h
  have ht : t = String.ofList w ++ s := by
    rw [← String.toList_inj, String.toList_append, String.toList_ofList, hw]
  have hw0 : (String.ofList w).utf8ByteSize = 0 := by
    rw [ht, String.utf8ByteSize_append] at hle
    omega
  rw [ht, String.utf8ByteSize_eq_zero_iff.mp hw0, String.empty_append]

/-- A suffix of `p ++ r` that is no longer than `r` in bytes is a suffix of `r`. -/
theorem suffix_of_suffix_append {s p r : String} (h : s.toList <:+ (p ++ r).toList)
    (hle : s.utf8ByteSize ≤ r.utf8ByteSize) : s.toList <:+ r.toList := by
  rw [String.toList_append] at h
  rcases List.suffix_or_suffix_of_suffix h (List.suffix_append _ _) with h' | h'
  · exact h'
  · have hrs : r = s := eq_of_suffix_of_utf8ByteSize_le h' hle
    subst hrs
    exact List.suffix_refl _

/-- `strings.Split` of a first piece followed by more pieces, each after the separator, where
no piece holds the separator. -/
theorem stringsSplit_of_toList {s p : String} {sep : Char} {rest : List String}
    (hp : sep ∉ p.toList) (hrest : ∀ q ∈ rest, sep ∉ q.toList)
    (hs : s.toList = p.toList ++ rest.flatMap fun q => sep :: q.toList) :
    stringsSplit s sep = p :: rest := by
  have hflat : (rest.flatMap fun q => sep :: q.toList) =
      (rest.map String.toList).flatMap (sep :: ·) := by
    simp [List.flatMap_map]
  have hlen : rest.length < s.toList.length + 1 := by
    have := length_le_length_flatMap_cons sep (rest.map String.toList)
    rw [hs, hflat]
    simp only [List.length_append, List.length_map] at this ⊢
    omega
  rw [hflat] at hs
  have hsplit : splitN sep (p.toList ++ (rest.map String.toList).flatMap (sep :: ·))
      (s.toList.length + 1) = p.toList :: rest.map String.toList :=
    splitN_append_flatMap hp (by simpa using hrest) (by simpa using hlen)
  rw [← hs] at hsplit
  simp [stringsSplit, stringsSplitN, hsplit]

/-- No piece of `strings.Split` holds the separator. -/
theorem sep_not_mem_stringsSplit {s q : String} {sep : Char} (hq : q ∈ stringsSplit s sep) :
    sep ∉ q.toList := by
  simp only [stringsSplit, stringsSplitN, List.mem_map] at hq
  obtain ⟨p, hp, rfl⟩ := hq
  rw [String.toList_ofList]
  exact sep_not_mem_splitN (Nat.lt_succ_of_le List.count_le_length) hp

theorem stringsSplitN_two_of_not_mem {a b : String} {sep : Char} (ha : sep ∉ a.toList) :
    stringsSplitN (a ++ String.singleton sep ++ b) sep 2 = [a, b] := by
  simp [stringsSplitN, String.toList_append, splitN_two_append ha]

/-- `strings.SplitN(s, sep, 2)` gives the whole text when it holds no separator, and otherwise
the text before the first separator, which holds none, and the rest. -/
theorem stringsSplitN_two_cases (s : String) (sep : Char) :
    (sep ∉ s.toList ∧ stringsSplitN s sep 2 = [s]) ∨
      ∃ a b : String, sep ∉ a.toList ∧ stringsSplitN s sep 2 = [a, b] := by
  cases hcut : cut sep s.toList with
  | none =>
      refine .inl ⟨not_mem_of_cut_eq_none hcut, ?_⟩
      simp [stringsSplitN, splitN, hcut]
  | some p =>
      obtain ⟨a, b⟩ := p
      refine .inr ⟨String.ofList a, String.ofList b, ?_, ?_⟩
      · rw [String.toList_ofList]
        exact not_mem_of_cut_eq_some hcut
      · simp [stringsSplitN, splitN, hcut]

/-- Texts joined by a one-character separator: the first, then each other after a
separator. -/
theorem toList_intercalate_singleton (sep : Char) (t : String) (ts : List String) :
    (String.intercalate (String.singleton sep) (t :: ts)).toList =
      t.toList ++ ts.flatMap fun q => sep :: q.toList := by
  rw [String.toList_intercalate, String.toList_singleton, List.map_cons]
  induction ts generalizing t with
  | nil => simp
  | cons t' ts ih =>
      rw [List.map_cons, List.intercalate_cons_cons, ih]
      simp

/-- `strings.Split` at the separator of texts joined by it gives the texts back, when none
holds the separator. -/
theorem stringsSplit_intercalate {ts : List String} {sep : Char} (hne : ts ≠ [])
    (h : ∀ t ∈ ts, sep ∉ t.toList) :
    stringsSplit (String.intercalate (String.singleton sep) ts) sep = ts := by
  obtain ⟨t, ts, rfl⟩ := List.exists_cons_of_ne_nil hne
  exact stringsSplit_of_toList (h t List.mem_cons_self)
    (fun q hq => h q (List.mem_cons_of_mem t hq)) (toList_intercalate_singleton sep t ts)

/-- Texts each followed by a separator are the texts joined by it, then one separator more. -/
theorem flatMap_append_singleton (sep : Char) (t : String) (ts : List String) :
    ((t :: ts).flatMap fun q => q.toList ++ [sep]) =
      (t.toList ++ ts.flatMap fun q => sep :: q.toList) ++ [sep] := by
  induction ts generalizing t with
  | nil => simp
  | cons t' ts ih =>
      rw [List.flatMap_cons, ih]
      simp

/-- Texts joined by a separator end in the last text, so not in the separator when no text
is empty or holds it. -/
theorem getLast_joined_ne {sep : Char} (t : String) (ts : List String)
    (h : ∀ q ∈ t :: ts, q.toList ≠ [] ∧ sep ∉ q.toList)
    (hne : (t.toList ++ ts.flatMap fun q => sep :: q.toList) ≠ []) :
    (t.toList ++ ts.flatMap fun q => sep :: q.toList).getLast hne ≠ sep := by
  induction ts generalizing t with
  | nil =>
      obtain ⟨ht, hsep⟩ := h t List.mem_cons_self
      simp only [List.flatMap_nil, List.append_nil]
      intro hlast
      exact hsep (hlast ▸ List.getLast_mem ht)
  | cons t' ts ih =>
      have htail := h t' (List.mem_cons_of_mem t List.mem_cons_self)
      have hrest : ∀ q ∈ t' :: ts, q.toList ≠ [] ∧ sep ∉ q.toList :=
        fun q hq => h q (List.mem_cons_of_mem t hq)
      have hne' : (t'.toList ++ ts.flatMap fun q => sep :: q.toList) ≠ [] := by
        simp [htail.1]
      -- the first text and its separator come before the joined rest
      have hsplit : (t.toList ++ (t' :: ts).flatMap fun q => sep :: q.toList) =
          (t.toList ++ [sep]) ++ (t'.toList ++ ts.flatMap fun q => sep :: q.toList) := by
        simp
      simp only [hsplit]
      rw [List.getLast_append_of_ne_nil _ hne']
      exact ih t' hrest hne'

/-- `strings.TrimRight` of texts each followed by a separator gives the texts joined by it,
when no text is empty or holds the separator. -/
theorem trimRight_of_toList {s : String} {sep : Char} {t : String} {ts : List String}
    (h : ∀ q ∈ t :: ts, q.toList ≠ [] ∧ sep ∉ q.toList)
    (hs : s.toList = (t :: ts).flatMap fun q => q.toList ++ [sep]) :
    trimRight s sep = String.intercalate (String.singleton sep) (t :: ts) := by
  have hself : (t.toList ++ ts.flatMap fun q => sep :: q.toList).rdropWhile (· == sep) =
      t.toList ++ ts.flatMap fun q => sep :: q.toList :=
    List.rdropWhile_eq_self_iff.mpr fun hne => by simpa using getLast_joined_ne t ts h hne
  rw [← String.toList_inj, toList_trimRight, hs, flatMap_append_singleton,
    List.rdropWhile_concat_pos _ _ _ (by simp), hself, toList_intercalate_singleton]

end Go
end Kubernetes
