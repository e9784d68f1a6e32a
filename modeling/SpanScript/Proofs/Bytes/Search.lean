import Mathlib.Data.List.Basic
import SpanScript.Bytes

/-!
# What a search finds

`Bytes.find` walks over the bytes; here its answer is said without the walk.
`FirstAt needle bs start n` says that `needle` stands at `n` and at no offset
between `start` and `n`, and `AbsentFrom needle bs start` that it stands
nowhere from `start` on.

* `find_eq_some_iff`, `find_eq_none_iff`: the two answers of a search.
* `FirstAt.not_infix`, `AbsentFrom.not_infix`: the bytes up to the place that
  is found do not contain what was searched.
* `FirstAt.append`, `FirstAt.shift`, `find_append_right`: searches in two byte strings laid end
  to end.

The windows of a byte string come first, for the places of a search cut it into
windows.
-/

namespace SpanScript.Bytes

/-! ## Windows -/

theorem drop_eq_window_append (bs : Bytes) {a b : Nat} (h : a ≤ b) :
    bs.drop a = bs.window a b ++ bs.drop b := by
  have e : bs.drop b = (bs.drop a).drop (b - a) := by
    rw [List.drop_drop]
    congr 1
    omega
  rw [e, window, List.take_append_drop]

theorem window_append (bs : Bytes) {a b c : Nat} (h₁ : a ≤ b) (h₂ : b ≤ c) :
    bs.window a b ++ bs.window b c = bs.window a c := by
  have e : bs.drop b = (bs.drop a).drop (b - a) := by
    rw [List.drop_drop]
    congr 1
    omega
  unfold window
  rw [e, ← List.take_add]
  congr 1
  omega

theorem length_window (bs : Bytes) (a b : Nat) :
    (bs.window a b).length = min (b - a) (bs.length - a) := by
  rw [window, List.length_take, List.length_drop]

theorem window_length (bs : Bytes) (a : Nat) : bs.window a bs.length = bs.drop a := by
  rw [window, List.take_of_length_le]
  exact Nat.le_of_eq List.length_drop

theorem window_eq_nil (bs : Bytes) {a b : Nat} (h : b ≤ a) : bs.window a b = [] := by
  rw [window, Nat.sub_eq_zero_of_le h, List.take_zero]

/-- What comes behind bytes that stand at an offset. -/
theorem drop_past {bs p rest : Bytes} {n : Nat} (h : bs.drop n = p ++ rest) :
    bs.drop (n + p.length) = rest := by
  rw [← List.drop_drop, h, List.drop_left]

/-- A window of the first part of a byte string. -/
theorem window_append_left (bs cs : Bytes) {a b : Nat} (h : b ≤ bs.length) :
    (bs ++ cs).window a b = bs.window a b := by
  rcases Nat.lt_or_ge b a with hba | hab
  · rw [window_eq_nil _ (Nat.le_of_lt hba), window_eq_nil _ (Nat.le_of_lt hba)]
  · unfold window
    rw [List.drop_append_of_le_length (by omega), List.take_append_of_le_length]
    rw [List.length_drop]
    omega

/-- A window of the second part of a byte string. -/
theorem window_append_right (bs cs : Bytes) (a b : Nat) :
    (bs ++ cs).window (bs.length + a) (bs.length + b) = cs.window a b := by
  unfold window
  rw [List.drop_append]
  congr 1
  · omega
  · rw [List.drop_eq_nil_of_le (by omega), Nat.add_sub_cancel_left, List.nil_append]

/-- What stands at an offset is the window of its length. -/
theorem window_of_prefix {p bs : Bytes} {n : Nat} (h : p <+: bs.drop n) :
    bs.window n (n + p.length) = p := by
  obtain ⟨rest, hr⟩ := h
  rw [window, ← hr, Nat.add_sub_cancel_left, List.take_left]

/-- A window may be cut at the end of the bytes. -/
theorem window_min (bs : Bytes) (a b : Nat) :
    bs.window (min a bs.length) (min b bs.length) = bs.window a b := by
  rcases Nat.le_total a bs.length with ha | ha
  · rcases Nat.le_total b bs.length with hb | hb
    · rw [Nat.min_eq_left ha, Nat.min_eq_left hb]
    · rw [Nat.min_eq_left ha, Nat.min_eq_right hb, window_length, window,
        List.take_of_length_le (by rw [List.length_drop]; omega)]
  · rw [window_eq_nil _ (by omega), window, List.drop_eq_nil_of_le ha, List.take_nil]

/-- What is left of a window behind the bytes at its head. -/
theorem window_past {bs p rest : Bytes} {a b : Nat} (h : bs.window a b = p ++ rest) :
    bs.window (a + p.length) b = rest := by
  have e := congrArg (List.drop p.length) h
  rw [List.drop_left, window, List.drop_take, List.drop_drop, Nat.sub_sub] at e
  exact e

/-- Bytes at the head of a window are a window. -/
theorem window_of_append {bs p rest : Bytes} {a b : Nat} (h : bs.window a b = p ++ rest) :
    bs.window a (a + p.length) = p :=
  window_of_prefix (.trans ⟨rest, h.symm⟩ (List.take_prefix (b - a) _))

/-- The first byte of a window, and the window behind it. -/
theorem window_eq_cons_iff {bs r : Bytes} {a b : Nat} {x : UInt8} :
    bs.window a b = x :: r ↔ a < b ∧ bs[a]? = some x ∧ bs.window (a + 1) b = r := by
  constructor
  · intro h
    have hhead := congrArg (·[0]?) h
    simp only [window, List.getElem?_take, List.getElem?_drop, List.getElem?_cons_zero] at hhead
    split at hhead
    · next hpos => exact ⟨by omega, hhead, window_past (p := [x]) h⟩
    · cases hhead
  · rintro ⟨hab, hx, rfl⟩
    obtain ⟨ha, rfl⟩ := List.getElem?_eq_some_iff.mp hx
    have hsub : b - a = (b - (a + 1)) + 1 := by omega
    rw [window, List.drop_eq_getElem_cons ha, hsub, List.take_succ_cons, window]

/-- A window is the same in byte strings that agree between its offsets. -/
theorem window_congr {bs cs : Bytes} {a b : Nat}
    (h : ∀ i < b, a ≤ i → cs[i]? = bs[i]?) : cs.window a b = bs.window a b := by
  apply List.ext_getElem?
  intro k
  rw [window, window, List.getElem?_take, List.getElem?_take]
  split
  · rw [List.getElem?_drop, List.getElem?_drop]
    exact h (a + k) (by omega) (Nat.le_add_right _ _)
  · rfl

theorem add_length_le_of_prefix {p bs : Bytes} {n : Nat} (hp : p ≠ []) (h : p <+: bs.drop n) :
    n + p.length ≤ bs.length := by
  have := h.length_le
  have := List.length_pos_iff.mpr hp
  rw [List.length_drop] at *
  omega

/-! ## The place that is found -/

/-- `n` is the leftmost offset from `start` on at which `needle` stands. -/
structure FirstAt (needle bs : Bytes) (start n : Nat) : Prop where
  le : start ≤ n
  stands : needle <+: bs.drop n
  leftmost : ∀ k, start ≤ k → k < n → ¬ needle <+: bs.drop k

/-- There is no offset from `start` on at which `needle` stands. -/
def AbsentFrom (needle bs : Bytes) (start : Nat) : Prop :=
  ∀ k, start ≤ k → ¬ needle <+: bs.drop k

theorem findFrom_eq_some {needle : Bytes} : ∀ {bs : Bytes} {pos n : Nat},
    findFrom needle pos bs = some n →
      pos ≤ n ∧ needle <+: bs.drop (n - pos) ∧ ∀ k, k < n - pos → ¬ needle <+: bs.drop k := by
  intro bs
  induction bs with
  | nil =>
    intro pos n h
    unfold findFrom at h
    split at h
    · next he =>
      obtain rfl := Option.some.inj h
      rw [List.isEmpty_iff.mp he]
      exact ⟨Nat.le_refl _, List.nil_prefix, fun k hk => by omega⟩
    · simp at h
  | cons b rest ih =>
    intro pos n h
    unfold findFrom at h
    split at h
    · next hp =>
      obtain rfl := Option.some.inj h
      rw [Nat.sub_self]
      exact ⟨Nat.le_refl _, List.isPrefixOf_iff_prefix.mp hp, fun k hk => by omega⟩
    · next hp =>
      obtain ⟨h1, h2, h3⟩ := ih h
      have e : n - pos = (n - (pos + 1)) + 1 := by omega
      refine ⟨by omega, by rw [e, List.drop_succ_cons]; exact h2, fun k hk => ?_⟩
      cases k with
      | zero => exact fun hk0 => hp (List.isPrefixOf_iff_prefix.mpr hk0)
      | succ k => exact h3 k (by omega)

theorem findFrom_eq_none {needle : Bytes} (hn : needle ≠ []) : ∀ {bs : Bytes} {pos : Nat},
    findFrom needle pos bs = none → ∀ k, ¬ needle <+: bs.drop k := by
  intro bs
  induction bs with
  | nil =>
    intro pos _ k hk
    rw [List.drop_nil] at hk
    exact hn (List.prefix_nil.mp hk)
  | cons b rest ih =>
    intro pos h k
    unfold findFrom at h
    split at h
    · simp at h
    · next hp =>
      cases k with
      | zero => exact fun hk0 => hp (List.isPrefixOf_iff_prefix.mpr hk0)
      | succ k => exact ih h k

theorem firstAt_of_find {needle bs : Bytes} {start n : Nat} (h : bs.find needle start = some n) :
    FirstAt needle bs start n := by
  unfold find at h
  split at h
  · obtain ⟨h1, h2, h3⟩ := findFrom_eq_some h
    rw [List.drop_drop, Nat.add_sub_cancel' h1] at h2
    refine ⟨h1, h2, fun k hk hkn => ?_⟩
    have := h3 (k - start) (by omega)
    rwa [List.drop_drop, Nat.add_sub_cancel' hk] at this
  · simp at h

theorem absentFrom_of_find {needle bs : Bytes} {start : Nat} (hn : needle ≠ [])
    (h : bs.find needle start = none) : AbsentFrom needle bs start := by
  intro k hk hkp
  unfold find at h
  split at h
  · have := findFrom_eq_none hn h (k - start)
    rw [List.drop_drop, Nat.add_sub_cancel' hk] at this
    exact this hkp
  · have := add_length_le_of_prefix hn hkp
    omega

/-- The leftmost place is one place. -/
theorem FirstAt.unique {needle bs : Bytes} {start n n' : Nat} (h : FirstAt needle bs start n)
    (h' : FirstAt needle bs start n') : n = n' := by
  rcases Nat.lt_trichotomy n n' with hlt | rfl | hgt
  · exact absurd h.stands (h'.leftmost n h.le hlt)
  · rfl
  · exact absurd h'.stands (h.leftmost n' h'.le hgt)

theorem FirstAt.not_absentFrom {needle bs : Bytes} {start n : Nat}
    (h : FirstAt needle bs start n) : ¬ AbsentFrom needle bs start :=
  fun ha => ha n h.le h.stands

theorem find_eq_some_iff {needle bs : Bytes} {start n : Nat} (hn : needle ≠ []) :
    bs.find needle start = some n ↔ FirstAt needle bs start n := by
  refine ⟨firstAt_of_find, fun h => ?_⟩
  cases hf : bs.find needle start with
  | none => exact absurd (absentFrom_of_find hn hf) h.not_absentFrom
  | some k => rw [(firstAt_of_find hf).unique h]

theorem find_eq_none_iff {needle bs : Bytes} {start : Nat} (hn : needle ≠ []) :
    bs.find needle start = none ↔ AbsentFrom needle bs start := by
  refine ⟨absentFrom_of_find hn, fun h => ?_⟩
  cases hf : bs.find needle start with
  | none => rfl
  | some k => exact absurd h (firstAt_of_find hf).not_absentFrom

/-- A search may as well begin at the end as behind it. -/
theorem find_min {needle bs : Bytes} (hn : needle ≠ []) (start : Nat) :
    bs.find needle (min start bs.length) = bs.find needle start := by
  rcases Nat.le_total start bs.length with hle | hle
  · rw [Nat.min_eq_left hle]
  · rw [Nat.min_eq_right hle]
    have absent {k : Nat} (h : bs.length ≤ k) : ¬ needle <+: bs.drop k := by
      rw [List.drop_eq_nil_of_le h]
      exact fun hp => hn (List.prefix_nil.mp hp)
    rw [(find_eq_none_iff hn).mpr fun k hk => absent hk,
      (find_eq_none_iff hn).mpr fun k hk => absent (Nat.le_trans hle hk)]

/-! ## What lies before it -/

/-- Bytes that stand in a window stand at an offset of it. -/
theorem exists_of_infix_window {needle bs : Bytes} {a b : Nat} (hn : needle ≠ [])
    (h : needle <:+: bs.window a b) : ∃ k, a ≤ k ∧ k < b ∧ needle <+: bs.drop k := by
  obtain ⟨s, t, hst⟩ := h
  have hlen := congrArg List.length hst
  rw [length_window, List.length_append, List.length_append] at hlen
  have := List.length_pos_iff.mpr hn
  refine ⟨a + s.length, by omega, by omega, ?_⟩
  have hpre : s ++ (needle ++ t) <+: bs.drop a := by
    rw [← List.append_assoc, hst]
    exact List.take_prefix _ _
  obtain ⟨r, hr⟩ := hpre
  rw [← List.drop_drop, ← hr, List.append_assoc, List.drop_left, List.append_assoc]
  exact List.prefix_append _ _

theorem FirstAt.not_infix {needle bs : Bytes} {start n : Nat} (hn : needle ≠ [])
    (h : FirstAt needle bs start n) : ¬ needle <:+: bs.window start n := by
  intro hi
  obtain ⟨k, h1, h2, h3⟩ := exists_of_infix_window hn hi
  exact h.leftmost k h1 h2 h3

theorem AbsentFrom.not_infix {needle bs : Bytes} {start n : Nat} (hn : needle ≠ [])
    (h : AbsentFrom needle bs start) : ¬ needle <:+: bs.window start n := by
  intro hi
  obtain ⟨k, h1, -, h3⟩ := exists_of_infix_window hn hi
  exact h k h1 h3

/-! ## Byte strings laid end to end -/

/-- `needle` stands across the place where two byte strings are joined. -/
def Straddles (needle as bs : Bytes) : Prop :=
  ∃ k, k < as.length ∧ as.length < k + needle.length ∧ needle <+: (as ++ bs).drop k

theorem prefix_drop_append_left {needle as bs : Bytes} {k : Nat}
    (h : k + needle.length ≤ as.length) :
    needle <+: (as ++ bs).drop k ↔ needle <+: as.drop k := by
  rw [List.drop_append_of_le_length (by omega)]
  refine ⟨fun hp => ?_, fun hp => hp.trans (List.prefix_append _ _)⟩
  refine List.prefix_of_prefix_length_le hp (List.prefix_append _ _) ?_
  rw [List.length_drop]
  omega

theorem prefix_drop_append_right {needle as bs : Bytes} {k : Nat} :
    needle <+: (as ++ bs).drop (k + as.length) ↔ needle <+: bs.drop k := by
  rw [Nat.add_comm, ← List.drop_drop, List.drop_left]

theorem FirstAt.append {needle as : Bytes} {start n : Nat} (hn : needle ≠ [])
    (h : FirstAt needle as start n) (bs : Bytes) : FirstAt needle (as ++ bs) start n := by
  have hlen := add_length_le_of_prefix hn h.stands
  refine ⟨h.le, (prefix_drop_append_left hlen).mpr h.stands, fun k hk hkn hp => ?_⟩
  exact h.leftmost k hk hkn ((prefix_drop_append_left (by omega)).mp hp)

/-- What is in neither part and not across the joint is nowhere before the second. -/
theorem AbsentFrom.append {needle as bs : Bytes} {start : Nat} (h : AbsentFrom needle as start)
    (hj : ¬ Straddles needle as bs) :
    ∀ k, start ≤ k → k < as.length → ¬ needle <+: (as ++ bs).drop k := by
  intro k hk hka hp
  rcases Nat.lt_or_ge as.length (k + needle.length) with hlt | hle
  · exact hj ⟨k, hka, hlt, hp⟩
  · exact h k hk ((prefix_drop_append_left hle).mp hp)

theorem FirstAt.shift {needle as bs : Bytes} {start start' n : Nat} (h : FirstAt needle bs start n)
    (hs : start' ≤ start + as.length)
    (hc : ∀ k, start' ≤ k → k < start + as.length → ¬ needle <+: (as ++ bs).drop k) :
    FirstAt needle (as ++ bs) start' (n + as.length) := by
  have hle := h.le
  refine ⟨by omega, prefix_drop_append_right.mpr h.stands, fun k hk hkn hp => ?_⟩
  rcases Nat.lt_or_ge k (start + as.length) with hlt | hge
  · exact hc k hk hlt hp
  · obtain ⟨j, rfl⟩ := Nat.exists_eq_add_of_le' (Nat.le_trans (Nat.le_add_left _ start) hge)
    exact h.leftmost j (by omega) (by omega) (prefix_drop_append_right.mp hp)

theorem AbsentFrom.shift {needle as bs : Bytes} {start start' : Nat}
    (h : AbsentFrom needle bs start)
    (hc : ∀ k, start' ≤ k → k < start + as.length → ¬ needle <+: (as ++ bs).drop k) :
    AbsentFrom needle (as ++ bs) start' := by
  intro k hk hp
  rcases Nat.lt_or_ge k (start + as.length) with hlt | hge
  · exact hc k hk hlt hp
  · obtain ⟨j, rfl⟩ := Nat.exists_eq_add_of_le' (Nat.le_trans (Nat.le_add_left _ start) hge)
    exact h j (by omega) (prefix_drop_append_right.mp hp)

/-- What is found in the second of two byte strings laid end to end. -/
theorem find_append_right {needle : Bytes} (hn : needle ≠ []) (as bs : Bytes) (start : Nat) :
    (as ++ bs).find needle (as.length + start) = (bs.find needle start).map (· + as.length) := by
  cases hf : bs.find needle start with
  | some n => exact (find_eq_some_iff hn).mpr ((firstAt_of_find hf).shift (by omega) (by omega))
  | none => exact (find_eq_none_iff hn).mpr ((absentFrom_of_find hn hf).shift (by omega))

end SpanScript.Bytes
