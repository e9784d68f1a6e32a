import SpanScript.Bytes.Utf8

/-!
# What UTF-8 decodes

A character is written in one way only: `decode?` gives a text for its encoding,
and for no other bytes.

* `Pending.Completes`, `Pending.CutShort`: the bytes that bring a character to its end, and those
  at which it breaks off; `completes_or_cutShort`: there is no third way.
* `Begins`, `begins_iff`: the first byte of a character with the ones behind it,
  and that they are its encoding.
* `decode?_eq_some_iff`: decoding undoes encoding, and nothing else decodes.
-/

namespace SpanScript.Utf8

/-! ## Bytes as numbers -/

theorem eq_ofNat {b : UInt8} {n : Nat} (h : b.toNat = n) : b = UInt8.ofNat n := by
  rw [← h, UInt8.ofNat_toNat]

theorem toNat_ofNat_lt {n : Nat} (h : n < 256) : (UInt8.ofNat n).toNat = n := by
  rw [UInt8.toNat_ofNat', Nat.mod_eq_of_lt h]

/-- What a byte begins, by its number. -/
theorem start_eq (b : UInt8) : start b =
    if b.toNat < 0x80 then .whole (Char.ofNat b.toNat)
    else if b.toNat < 0xC2 then .fault
    else if b.toNat < 0xE0 then .longer (.partway 0x80 0xBF (b.toNat - 0xC0) 0)
    else if b.toNat = 0xE0 then .longer (.partway 0xA0 0xBF 0 1)
    else if b.toNat = 0xED then .longer (.partway 0x80 0x9F 0xD 1)
    else if b.toNat < 0xF0 then .longer (.partway 0x80 0xBF (b.toNat - 0xE0) 1)
    else if b.toNat = 0xF0 then .longer (.partway 0x90 0xBF 0 2)
    else if b.toNat < 0xF4 then .longer (.partway 0x80 0xBF (b.toNat - 0xF0) 2)
    else if b.toNat = 0xF4 then .longer (.partway 0x80 0x8F 4 2)
    else .fault := by
  simp only [start, UInt8.lt_iff_toNat_lt, beq_iff_eq, ← UInt8.toNat_inj]
  rfl

section

variable {b : UInt8}

theorem start_one (h : b.toNat < 0x80) : start b = .whole (Char.ofNat b.toNat) := by
  rw [start_eq, if_pos h]

theorem start_two (h1 : 0xC2 ≤ b.toNat) (h2 : b.toNat < 0xE0) :
    start b = .longer (.partway 0x80 0xBF (b.toNat - 0xC0) 0) := by
  rw [start_eq, if_neg (by omega), if_neg (by omega), if_pos h2]

theorem start_three (h1 : 0xE0 ≤ b.toNat) (h2 : b.toNat < 0xF0) :
    start b = .longer (.partway (if b.toNat = 0xE0 then 0xA0 else 0x80)
      (if b.toNat = 0xED then 0x9F else 0xBF) (b.toNat - 0xE0) 1) := by
  rw [start_eq, if_neg (by omega), if_neg (by omega), if_neg (by omega)]
  by_cases h3 : b.toNat = 0xE0
  · rw [if_pos h3, if_pos h3, if_neg (by omega), h3]
  by_cases h4 : b.toNat = 0xED
  · rw [if_neg h3, if_pos h4, if_neg h3, if_pos h4, h4]
  · rw [if_neg h3, if_neg h4, if_pos h2, if_neg h3, if_neg h4]

theorem start_four (h1 : 0xF0 ≤ b.toNat) (h2 : b.toNat ≤ 0xF4) :
    start b = .longer (.partway (if b.toNat = 0xF0 then 0x90 else 0x80)
      (if b.toNat = 0xF4 then 0x8F else 0xBF) (b.toNat - 0xF0) 2) := by
  rw [start_eq, if_neg (by omega), if_neg (by omega), if_neg (by omega), if_neg (by omega),
    if_neg (by omega), if_neg (by omega)]
  by_cases h3 : b.toNat = 0xF0
  · rw [if_pos h3, if_pos h3, if_neg (by omega), h3]
  by_cases h4 : b.toNat = 0xF4
  · rw [if_neg h3, if_neg (by omega), if_pos h4, if_neg h3, if_pos h4, h4]
  · rw [if_neg h3, if_pos (by omega), if_neg h3, if_neg h4]

theorem start_fault (h : 0x80 ≤ b.toNat ∧ b.toNat < 0xC2 ∨ 0xF4 < b.toNat) :
    start b = .fault := by
  rw [start_eq, if_neg (by omega)]
  rcases h with h | h
  · rw [if_pos h.2]
  · rw [if_neg (by omega), if_neg (by omega), if_neg (by omega), if_neg (by omega),
      if_neg (by omega), if_neg (by omega), if_neg (by omega), if_neg (by omega)]

/-- A byte that begins a longer sequence tells which bytes may follow, and some may. -/
theorem start_longer {s : Pending} (h : start b = .longer s) :
    ∃ low high bits due, s = .partway low high bits due ∧ low ≤ high := by
  rw [start_eq] at h
  repeat' split at h
  all_goals cases h
  all_goals exact ⟨_, _, _, _, rfl, by decide⟩

end

/-! ## One character -/

/-- The bytes that bring the character `c` to its end. -/
inductive Pending.Completes : Pending → Bytes → Char → Prop
  | last {low high b : UInt8} {bits : Nat} : low ≤ b → b ≤ high →
      Completes (.partway low high bits 0) [b] (Char.ofNat (bits * 64 + (b.toNat - 0x80)))
  | step {low high b : UInt8} {bits due : Nat} {p : Bytes} {c : Char} : low ≤ b → b ≤ high →
      Completes (.partway 0x80 0xBF (bits * 64 + (b.toNat - 0x80)) due) p c →
      Completes (.partway low high bits (due + 1)) (b :: p) c

theorem Pending.Completes.scanFrom_append {s : Pending} {p : Bytes} {c : Char}
    (h : s.Completes p c) (rest : Bytes) :
    scanFrom s (p ++ rest) = some c :: scanFrom .none rest := by
  induction h with
  | last hl hh => rw [List.singleton_append, scanFrom, if_pos ⟨hl, hh⟩]
  | step hl hh _ ih =>
    rw [List.cons_append, scanFrom, if_pos ⟨hl, hh⟩]
    exact ih

/-- The bytes go on with a character, and more of them are needed to bring it to its end. -/
def Pending.Extends (s : Pending) (p : Bytes) : Prop := ∃ q c, q ≠ [] ∧ s.Completes (p ++ q) c

/-- A character that has been begun is cut short: it goes on with `p`, and with no more of what
comes then, and that is read as a fault. -/
structure Pending.CutShort (s : Pending) (p rest : Bytes) : Prop where
  goes : s.Extends p
  longest : ∀ q, q <+: p ++ rest → s.Extends q → q.length ≤ p.length
  unended : ∀ q c, q <+: p ++ rest → ¬ s.Completes q c
  scan : scanFrom s (p ++ rest) = Option.none :: scanFrom .none rest

namespace Pending

section

variable {low high b : UInt8} {bits due : Nat} {p rest : Bytes} {c : Char}

theorem Completes.exists_cons (h : (partway low high bits due).Completes p c) :
    ∃ b q, p = b :: q ∧ low ≤ b ∧ b ≤ high := by
  cases h with
  | last hl hh => exact ⟨_, [], rfl, hl, hh⟩
  | step hl hh _ => exact ⟨_, _, rfl, hl, hh⟩

theorem completes_succ_iff : (partway low high bits (due + 1)).Completes (b :: p) c ↔
    (low ≤ b ∧ b ≤ high) ∧
      (partway 0x80 0xBF (bits * 64 + (b.toNat - 0x80)) due).Completes p c := by
  constructor
  · rintro (_ | ⟨hl, hh, hp⟩)
    exact ⟨⟨hl, hh⟩, hp⟩
  · exact fun ⟨⟨hl, hh⟩, hp⟩ => .step hl hh hp

theorem extends_succ_iff : (partway low high bits (due + 1)).Extends (b :: p) ↔
    (low ≤ b ∧ b ≤ high) ∧ (partway 0x80 0xBF (bits * 64 + (b.toNat - 0x80)) due).Extends p := by
  constructor
  · rintro ⟨q, c, hq, h⟩
    obtain ⟨hb, hp⟩ := completes_succ_iff.mp h
    exact ⟨hb, q, c, hq, hp⟩
  · rintro ⟨hb, q, c, hq, hp⟩
    exact ⟨q, c, hq, completes_succ_iff.mpr ⟨hb, hp⟩⟩

/-- If any byte may follow, there are bytes that bring the character to its end. -/
theorem extends_nil : ∀ (due bits : Nat) (low high : UInt8), low ≤ high →
    (partway low high bits due).Extends [] := by
  intro due
  induction due with
  | zero => exact fun bits low high h => ⟨[low], _, List.cons_ne_nil _ _, .last (UInt8.le_refl _) h⟩
  | succ due ih =>
    intro bits low high h
    obtain ⟨q, c, -, hp⟩ := ih (bits * 64 + (low.toNat - 0x80)) 0x80 0xBF (by decide)
    exact ⟨low :: q, c, List.cons_ne_nil _ _, .step (UInt8.le_refl _) h hp⟩

/-- The end of the bytes, or a byte that may not follow, cuts a character short. -/
theorem cutShort_nil (h : low ≤ high) (hrest : ∀ b ∈ rest.head?, ¬ (low ≤ b ∧ b ≤ high)) :
    (partway low high bits due).CutShort [] rest := by
  -- whatever the character needs begins with a byte that does not come
  have habsent {q : Bytes} {c : Char} (r : Bytes) (hq : q ≠ []) (hp : q <+: rest) :
      ¬ (partway low high bits due).Completes (q ++ r) c := by
    intro hc
    obtain ⟨b, t, rfl⟩ := List.exists_cons_of_ne_nil hq
    obtain ⟨b', u, hbu, hb⟩ := hc.exists_cons
    obtain ⟨rfl, -⟩ := List.cons.inj hbu
    obtain ⟨v, rfl⟩ := hp
    exact hrest b rfl hb
  refine ⟨extends_nil due bits low high h, fun q hq hx => ?_, fun q c hq hc => ?_, ?_⟩
  · obtain ⟨r, c, -, hc⟩ := hx
    by_cases hne : q = []
    · exact hne ▸ Nat.le_refl _
    · exact absurd hc (habsent r hne hq)
  · obtain ⟨b, t, rfl, -⟩ := hc.exists_cons
    exact habsent [] (List.cons_ne_nil _ _) hq (by rwa [List.append_nil])
  · cases rest with
    | nil => rfl
    | cons b rest =>
      -- the byte is read again, as a beginning
      conv => lhs; rw [List.nil_append, scanFrom, if_neg (hrest b rfl)]
      rw [scanFrom]
      cases start b <;> rfl

theorem CutShort.cons (hl : low ≤ b) (hh : b ≤ high)
    (h : (partway 0x80 0xBF (bits * 64 + (b.toNat - 0x80)) due).CutShort p rest) :
    (partway low high bits (due + 1)).CutShort (b :: p) rest := by
  refine ⟨extends_succ_iff.mpr ⟨⟨hl, hh⟩, h.goes⟩, fun q hq hx => ?_, fun q c hq hc => ?_, ?_⟩
  · rcases List.prefix_cons_iff.mp hq with rfl | ⟨t, rfl, ht⟩
    · exact Nat.zero_le _
    · exact Nat.succ_le_succ (h.longest t ht (extends_succ_iff.mp hx).2)
  · obtain ⟨b', t, rfl, -⟩ := hc.exists_cons
    obtain ⟨rfl, ht⟩ := List.cons_prefix_cons.mp hq
    exact h.unended t c ht (completes_succ_iff.mp hc).2
  · rw [List.cons_append, scanFrom, if_pos ⟨hl, hh⟩]
    exact h.scan

end

end Pending

theorem takes_or_cutShort {low high : UInt8} (h : low ≤ high) (bits due : Nat) (bs : Bytes) :
    (∃ b rest, bs = b :: rest ∧ low ≤ b ∧ b ≤ high) ∨
      (Pending.partway low high bits due).CutShort [] bs := by
  by_cases hb : ∃ b ∈ bs.head?, low ≤ b ∧ b ≤ high
  · obtain ⟨b, hm, hin⟩ := hb
    obtain ⟨rest, rfl⟩ := List.head?_eq_some_iff.mp hm
    exact .inl ⟨b, rest, rfl, hin⟩
  · exact .inr (Pending.cutShort_nil h fun b hm hin => hb ⟨b, hm, hin⟩)

/-- A character that has been begun is brought to its end, or cut short. -/
theorem completes_or_cutShort : ∀ (due bits : Nat) (low high : UInt8) (bs : Bytes), low ≤ high →
    (∃ p c rest, bs = p ++ rest ∧ (Pending.partway low high bits due).Completes p c) ∨
      ∃ p rest, bs = p ++ rest ∧ (Pending.partway low high bits due).CutShort p rest := by
  intro due
  induction due with
  | zero =>
    intro bits low high bs h
    rcases takes_or_cutShort h bits 0 bs with ⟨b, rest, rfl, hl, hh⟩ | hcut
    · exact .inl ⟨[b], _, rest, rfl, .last hl hh⟩
    · exact .inr ⟨[], bs, rfl, hcut⟩
  | succ due ih =>
    intro bits low high bs h
    rcases takes_or_cutShort h bits (due + 1) bs with ⟨b, rest, rfl, hl, hh⟩ | hcut
    · rcases ih (bits * 64 + (b.toNat - 0x80)) 0x80 0xBF rest (by decide) with
        ⟨p, c, rest', rfl, hp⟩ | ⟨p, rest', rfl, hp⟩
      · exact .inl ⟨b :: p, c, rest', rfl, .step hl hh hp⟩
      · exact .inr ⟨b :: p, rest', rfl, hp.cons hl hh⟩
    · exact .inr ⟨[], bs, rfl, hcut⟩

/-- The byte `b` begins the character `c`, and the bytes `p` bring it to its end. -/
inductive Begins (b : UInt8) : Bytes → Char → Prop
  | whole {c : Char} : start b = .whole c → Begins b [] c
  | longer {s : Pending} {p : Bytes} {c : Char} : start b = .longer s → s.Completes p c →
      Begins b p c

theorem Begins.scanFrom_append {b : UInt8} {p : Bytes} {c : Char} (h : Begins b p c)
    (rest : Bytes) : scanFrom .none (b :: p ++ rest) = some c :: scanFrom .none rest := by
  cases h with
  | whole hb =>
    rw [List.cons_append, List.nil_append, scanFrom, hb]
  | longer hb hp =>
    rw [List.cons_append, scanFrom, hb]
    exact hp.scanFrom_append rest

theorem exists_begins {b : UInt8} {bs : Bytes} (h : none ∉ scanFrom .none (b :: bs)) :
    ∃ p c rest, bs = p ++ rest ∧ Begins b p c := by
  rw [scanFrom] at h
  cases hb : start b with
  | whole c => exact ⟨[], c, bs, rfl, .whole hb⟩
  | fault =>
    rw [hb] at h
    exact absurd List.mem_cons_self h
  | longer s =>
    rw [hb] at h
    obtain ⟨low, high, bits, due, rfl, hle⟩ := start_longer hb
    rcases completes_or_cutShort due bits low high bs hle with
      ⟨p, c, rest, rfl, hp⟩ | ⟨p, rest, rfl, hp⟩
    · exact ⟨p, c, rest, rfl, .longer hb hp⟩
    · have hfault : none ∈ scanFrom (.partway low high bits due) (p ++ rest) := by
        rw [hp.scan]
        exact List.mem_cons_self
      exact absurd hfault h

section

variable {c : Char}

theorem encode_one (h : c.toNat < 0x80) : String.utf8EncodeChar c = [UInt8.ofNat c.toNat] := by
  unfold String.utf8EncodeChar
  exact if_pos (Nat.le_of_lt_succ h)

theorem encode_two (h1 : 0x80 ≤ c.toNat) (h2 : c.toNat < 0x800) : String.utf8EncodeChar c =
    [UInt8.ofNat (c.toNat / 64 % 32 + 192), UInt8.ofNat (c.toNat % 64 + 128)] := by
  unfold String.utf8EncodeChar
  exact (if_neg (Nat.not_le.mpr h1)).trans (if_pos (Nat.le_of_lt_succ h2))

theorem encode_three (h1 : 0x800 ≤ c.toNat) (h2 : c.toNat < 0x10000) :
    String.utf8EncodeChar c = [UInt8.ofNat (c.toNat / 4096 % 16 + 224),
      UInt8.ofNat (c.toNat / 64 % 64 + 128), UInt8.ofNat (c.toNat % 64 + 128)] := by
  unfold String.utf8EncodeChar
  exact (if_neg (by show ¬ c.toNat ≤ 127; omega)).trans <|
    (if_neg (Nat.not_le.mpr h1)).trans (if_pos (Nat.le_of_lt_succ h2))

theorem encode_four (h : 0x10000 ≤ c.toNat) : String.utf8EncodeChar c =
    [UInt8.ofNat (c.toNat / 262144 % 8 + 240), UInt8.ofNat (c.toNat / 4096 % 64 + 128),
      UInt8.ofNat (c.toNat / 64 % 64 + 128), UInt8.ofNat (c.toNat % 64 + 128)] := by
  unfold String.utf8EncodeChar
  exact (if_neg (by show ¬ c.toNat ≤ 127; omega)).trans <|
    (if_neg (by show ¬ c.toNat ≤ 2047; omega)).trans (if_neg (Nat.not_le.mpr h))

end

/-- A byte below `0x80` stands for itself wherever it stands. -/
theorem toNat_eq_of_mem_encode {c : Char} {b : UInt8} (h : b ∈ String.utf8EncodeChar c)
    (hb : b.toNat < 0x80) : c.toNat = b.toNat := by
  -- the bytes of a longer sequence are all above
  have habove {n : Nat} (h1 : 0x80 ≤ n) (h2 : n < 256) : b ≠ UInt8.ofNat n := fun e => by
    rw [e, toNat_ofNat_lt h2] at hb
    omega
  have hrange : c.toNat < 0x80 ∨ (0x80 ≤ c.toNat ∧ c.toNat < 0x800) ∨
      (0x800 ≤ c.toNat ∧ c.toNat < 0x10000) ∨ 0x10000 ≤ c.toNat := by omega
  rcases hrange with h1 | ⟨h1, h2⟩ | ⟨h1, h2⟩ | h1
  · rw [encode_one h1, List.mem_singleton] at h
    rw [h, toNat_ofNat_lt (by omega)]
  · rw [encode_two h1 h2] at h
    simp only [List.mem_cons, List.not_mem_nil, or_false] at h
    rcases h with h | h <;> exact absurd h (habove (by omega) (by omega))
  · rw [encode_three h1 h2] at h
    simp only [List.mem_cons, List.not_mem_nil, or_false] at h
    rcases h with h | h | h <;> exact absurd h (habove (by omega) (by omega))
  · rw [encode_four h1] at h
    simp only [List.mem_cons, List.not_mem_nil, or_false] at h
    rcases h with h | h | h | h <;> exact absurd h (habove (by omega) (by omega))

/-- The number of a character that is given by its number. -/
theorem toNat_char {n : Nat} (h : n < 0xD800 ∨ 0xDFFF < n ∧ n < 0x110000) :
    (Char.ofNat n).toNat = n := by
  rw [Char.ofNat, dif_pos h]
  rfl

/-- The bytes that go on with a character. -/
def Tail (b : UInt8) : Prop := 0x80 ≤ b.toNat ∧ b.toNat ≤ 0xBF

theorem tail_iff {b : UInt8} : Tail b ↔ 0x80 ≤ b ∧ b ≤ 0xBF := by
  rw [UInt8.le_iff_toNat_le, UInt8.le_iff_toNat_le]
  exact Iff.rfl

/-- The range of the second byte of three. -/
theorem second_of_three {b b₁ : UInt8} :
    (if b.toNat = 0xE0 then 0xA0 else 0x80) ≤ b₁ ∧ b₁ ≤ (if b.toNat = 0xED then 0x9F else 0xBF) ↔
      Tail b₁ ∧ (b.toNat = 0xE0 → 0xA0 ≤ b₁.toNat) ∧ (b.toNat = 0xED → b₁.toNat ≤ 0x9F) := by
  rw [UInt8.le_iff_toNat_le, UInt8.le_iff_toNat_le, apply_ite UInt8.toNat, apply_ite UInt8.toNat]
  show (if b.toNat = 0xE0 then 0xA0 else 0x80) ≤ b₁.toNat ∧
    b₁.toNat ≤ (if b.toNat = 0xED then 0x9F else 0xBF) ↔ _
  unfold Tail
  split <;> split <;> omega

/-- The range of the second byte of four. -/
theorem second_of_four {b b₁ : UInt8} :
    (if b.toNat = 0xF0 then 0x90 else 0x80) ≤ b₁ ∧ b₁ ≤ (if b.toNat = 0xF4 then 0x8F else 0xBF) ↔
      Tail b₁ ∧ (b.toNat = 0xF0 → 0x90 ≤ b₁.toNat) ∧ (b.toNat = 0xF4 → b₁.toNat ≤ 0x8F) := by
  rw [UInt8.le_iff_toNat_le, UInt8.le_iff_toNat_le, apply_ite UInt8.toNat, apply_ite UInt8.toNat]
  show (if b.toNat = 0xF0 then 0x90 else 0x80) ≤ b₁.toNat ∧
    b₁.toNat ≤ (if b.toNat = 0xF4 then 0x8F else 0xBF) ↔ _
  unfold Tail
  split <;> split <;> omega

/-! ### Bytes that make up a character -/

section

variable {b b₁ b₂ b₃ : UInt8}

theorem encode_ofNat_one (h : b.toNat < 0x80) :
    String.utf8EncodeChar (Char.ofNat b.toNat) = [b] := by
  have hn : (Char.ofNat b.toNat).toNat = b.toNat := toNat_char (by omega)
  rw [encode_one (by omega), hn, UInt8.ofNat_toNat]

theorem encode_ofNat_two (h1 : 0xC2 ≤ b.toNat) (h2 : b.toNat < 0xE0) (h : Tail b₁) :
    String.utf8EncodeChar (Char.ofNat ((b.toNat - 0xC0) * 64 + (b₁.toNat - 0x80))) = [b, b₁] := by
  obtain ⟨hl₁, hh₁⟩ := h
  generalize hn : (b.toNat - 0xC0) * 64 + (b₁.toNat - 0x80) = n
  have e : b = UInt8.ofNat (n / 64 % 32 + 192) := eq_ofNat (by omega)
  have e₁ : b₁ = UInt8.ofNat (n % 64 + 128) := eq_ofNat (by omega)
  have hc := toNat_char (n := n) (by omega)
  rw [encode_two (by omega) (by omega), hc, ← e, ← e₁]

theorem encode_ofNat_three (h1 : 0xE0 ≤ b.toNat) (h2 : b.toNat < 0xF0)
    (h : Tail b₁ ∧ (b.toNat = 0xE0 → 0xA0 ≤ b₁.toNat) ∧ (b.toNat = 0xED → b₁.toNat ≤ 0x9F))
    (h' : Tail b₂) :
    String.utf8EncodeChar (Char.ofNat
      (((b.toNat - 0xE0) * 64 + (b₁.toNat - 0x80)) * 64 + (b₂.toNat - 0x80))) = [b, b₁, b₂] := by
  obtain ⟨⟨hl₁, hh₁⟩, hlow, hhigh⟩ := h
  obtain ⟨hl₂, hh₂⟩ := h'
  generalize hn : ((b.toNat - 0xE0) * 64 + (b₁.toNat - 0x80)) * 64 + (b₂.toNat - 0x80) = n
  have e : b = UInt8.ofNat (n / 4096 % 16 + 224) := eq_ofNat (by omega)
  have e₁ : b₁ = UInt8.ofNat (n / 64 % 64 + 128) := eq_ofNat (by omega)
  have e₂ : b₂ = UInt8.ofNat (n % 64 + 128) := eq_ofNat (by omega)
  have hc := toNat_char (n := n) (by omega)
  rw [encode_three (by omega) (by omega), hc, ← e, ← e₁, ← e₂]

theorem encode_ofNat_four (h1 : 0xF0 ≤ b.toNat) (h2 : b.toNat ≤ 0xF4)
    (h : Tail b₁ ∧ (b.toNat = 0xF0 → 0x90 ≤ b₁.toNat) ∧ (b.toNat = 0xF4 → b₁.toNat ≤ 0x8F))
    (h' : Tail b₂) (h'' : Tail b₃) :
    String.utf8EncodeChar (Char.ofNat ((((b.toNat - 0xF0) * 64 + (b₁.toNat - 0x80)) * 64 +
      (b₂.toNat - 0x80)) * 64 + (b₃.toNat - 0x80))) = [b, b₁, b₂, b₃] := by
  obtain ⟨⟨hl₁, hh₁⟩, hlow, hhigh⟩ := h
  obtain ⟨hl₂, hh₂⟩ := h'
  obtain ⟨hl₃, hh₃⟩ := h''
  generalize hn : (((b.toNat - 0xF0) * 64 + (b₁.toNat - 0x80)) * 64 +
    (b₂.toNat - 0x80)) * 64 + (b₃.toNat - 0x80) = n
  have e : b = UInt8.ofNat (n / 262144 % 8 + 240) := eq_ofNat (by omega)
  have e₁ : b₁ = UInt8.ofNat (n / 4096 % 64 + 128) := eq_ofNat (by omega)
  have e₂ : b₂ = UInt8.ofNat (n / 64 % 64 + 128) := eq_ofNat (by omega)
  have e₃ : b₃ = UInt8.ofNat (n % 64 + 128) := eq_ofNat (by omega)
  have hc := toNat_char (n := n) (by omega)
  rw [encode_four (by omega), hc, ← e, ← e₁, ← e₂, ← e₃]

end

/-- What is read as a character is its encoding. -/
theorem Begins.encode_eq {b : UInt8} {p : Bytes} {c : Char} (h : Begins b p c) :
    String.utf8EncodeChar c = b :: p := by
  have hrange : b.toNat < 0x80 ∨ (0xC2 ≤ b.toNat ∧ b.toNat < 0xE0) ∨
      (0xE0 ≤ b.toNat ∧ b.toNat < 0xF0) ∨ (0xF0 ≤ b.toNat ∧ b.toNat ≤ 0xF4) ∨
      (0x80 ≤ b.toNat ∧ b.toNat < 0xC2 ∨ 0xF4 < b.toNat) := by omega
  rcases hrange with h1 | ⟨h1, h2⟩ | ⟨h1, h2⟩ | ⟨h1, h2⟩ | h1
  · have hb := start_one h1
    cases h with
    | longer hs _ => rw [hb] at hs; cases hs
    | whole hc =>
      obtain rfl := Start.whole.inj (hb.symm.trans hc)
      exact encode_ofNat_one h1
  · have hb := start_two h1 h2
    cases h with
    | whole hc => rw [hb] at hc; cases hc
    | longer hs hp =>
      obtain rfl := Start.longer.inj (hb.symm.trans hs)
      cases hp with
      | last hl hh => exact encode_ofNat_two h1 h2 (tail_iff.mpr ⟨hl, hh⟩)
  · have hb := start_three h1 h2
    cases h with
    | whole hc => rw [hb] at hc; cases hc
    | longer hs hp =>
      obtain rfl := Start.longer.inj (hb.symm.trans hs)
      cases hp with
      | step hl hh hp =>
      cases hp with
      | last hl' hh' =>
        exact encode_ofNat_three h1 h2 (second_of_three.mp ⟨hl, hh⟩) (tail_iff.mpr ⟨hl', hh'⟩)
  · have hb := start_four h1 h2
    cases h with
    | whole hc => rw [hb] at hc; cases hc
    | longer hs hp =>
      obtain rfl := Start.longer.inj (hb.symm.trans hs)
      cases hp with
      | step hl hh hp =>
      cases hp with
      | step hl' hh' hp =>
      cases hp with
      | last hl'' hh'' =>
        exact encode_ofNat_four h1 h2 (second_of_four.mp ⟨hl, hh⟩) (tail_iff.mpr ⟨hl', hh'⟩)
          (tail_iff.mpr ⟨hl'', hh''⟩)
  · have hb := start_fault h1
    cases h with
    | whole hc => rw [hb] at hc; cases hc
    | longer hs _ => rw [hb] at hs; cases hs

/-! ### Characters by the number of their bytes -/

section

variable {c : Char}

theorem begins_one (h : c.toNat < 0x80) : Begins (UInt8.ofNat c.toNat) [] c := by
  have hb := toNat_ofNat_lt (n := c.toNat) (by omega)
  refine .whole ?_
  rw [start_one (by omega), hb, Char.ofNat_toNat]

theorem begins_two (h1 : 0x80 ≤ c.toNat) (h2 : c.toNat < 0x800) :
    Begins (UInt8.ofNat (c.toNat / 64 % 32 + 192)) [UInt8.ofNat (c.toNat % 64 + 128)] c := by
  generalize hb : UInt8.ofNat (c.toNat / 64 % 32 + 192) = b
  generalize hb₁ : UInt8.ofNat (c.toNat % 64 + 128) = b₁
  have hn : b.toNat = c.toNat / 64 % 32 + 192 := hb ▸ toNat_ofNat_lt (by omega)
  have hn₁ : b₁.toNat = c.toNat % 64 + 128 := hb₁ ▸ toNat_ofNat_lt (by omega)
  have hc : c.toNat = (b.toNat - 0xC0) * 64 + (b₁.toNat - 0x80) := by omega
  obtain ⟨hl, hh⟩ := tail_iff.mp (⟨by omega, by omega⟩ : Tail b₁)
  refine .longer (start_two (by omega) (by omega)) ?_
  rw [← Char.ofNat_toNat c, hc]
  exact .last hl hh

theorem begins_three (h1 : 0x800 ≤ c.toNat) (h2 : c.toNat < 0x10000) :
    Begins (UInt8.ofNat (c.toNat / 4096 % 16 + 224))
      [UInt8.ofNat (c.toNat / 64 % 64 + 128), UInt8.ofNat (c.toNat % 64 + 128)] c := by
  have hvalid : c.toNat < 0xD800 ∨ 0xDFFF < c.toNat ∧ c.toNat < 0x110000 := c.valid
  generalize hb : UInt8.ofNat (c.toNat / 4096 % 16 + 224) = b
  generalize hb₁ : UInt8.ofNat (c.toNat / 64 % 64 + 128) = b₁
  generalize hb₂ : UInt8.ofNat (c.toNat % 64 + 128) = b₂
  have hn : b.toNat = c.toNat / 64 / 64 % 16 + 224 := by
    rw [← hb, toNat_ofNat_lt (by omega), Nat.div_div_eq_div_mul]
  have hn₁ : b₁.toNat = c.toNat / 64 % 64 + 128 := hb₁ ▸ toNat_ofNat_lt (by omega)
  have hn₂ : b₂.toNat = c.toNat % 64 + 128 := hb₂ ▸ toNat_ofNat_lt (by omega)
  have hc : c.toNat = ((b.toNat - 0xE0) * 64 + (b₁.toNat - 0x80)) * 64 + (b₂.toNat - 0x80) := by
    omega
  have hsecond : Tail b₁ ∧ (b.toNat = 0xE0 → 0xA0 ≤ b₁.toNat) ∧
      (b.toNat = 0xED → b₁.toNat ≤ 0x9F) :=
    ⟨⟨by omega, by omega⟩, fun _ => by omega, fun _ => by omega⟩
  obtain ⟨hl, hh⟩ := second_of_three.mpr hsecond
  obtain ⟨hl₂, hh₂⟩ := tail_iff.mp (⟨by omega, by omega⟩ : Tail b₂)
  refine .longer (start_three (by omega) (by omega)) ?_
  rw [← Char.ofNat_toNat c, hc]
  exact .step hl hh (.last hl₂ hh₂)

theorem begins_four (h : 0x10000 ≤ c.toNat) :
    Begins (UInt8.ofNat (c.toNat / 262144 % 8 + 240)) [UInt8.ofNat (c.toNat / 4096 % 64 + 128),
      UInt8.ofNat (c.toNat / 64 % 64 + 128), UInt8.ofNat (c.toNat % 64 + 128)] c := by
  have hvalid : c.toNat < 0xD800 ∨ 0xDFFF < c.toNat ∧ c.toNat < 0x110000 := c.valid
  generalize hb : UInt8.ofNat (c.toNat / 262144 % 8 + 240) = b
  generalize hb₁ : UInt8.ofNat (c.toNat / 4096 % 64 + 128) = b₁
  generalize hb₂ : UInt8.ofNat (c.toNat / 64 % 64 + 128) = b₂
  generalize hb₃ : UInt8.ofNat (c.toNat % 64 + 128) = b₃
  have hn : b.toNat = c.toNat / 64 / 64 / 64 % 8 + 240 := by
    rw [← hb, toNat_ofNat_lt (by omega), Nat.div_div_eq_div_mul, Nat.div_div_eq_div_mul]
  have hn₁ : b₁.toNat = c.toNat / 64 / 64 % 64 + 128 := by
    rw [← hb₁, toNat_ofNat_lt (by omega), Nat.div_div_eq_div_mul]
  have hn₂ : b₂.toNat = c.toNat / 64 % 64 + 128 := hb₂ ▸ toNat_ofNat_lt (by omega)
  have hn₃ : b₃.toNat = c.toNat % 64 + 128 := hb₃ ▸ toNat_ofNat_lt (by omega)
  have hc : c.toNat = (((b.toNat - 0xF0) * 64 + (b₁.toNat - 0x80)) * 64 + (b₂.toNat - 0x80)) * 64 +
      (b₃.toNat - 0x80) := by omega
  have hsecond : Tail b₁ ∧ (b.toNat = 0xF0 → 0x90 ≤ b₁.toNat) ∧
      (b.toNat = 0xF4 → b₁.toNat ≤ 0x8F) :=
    ⟨⟨by omega, by omega⟩, fun _ => by omega, fun _ => by omega⟩
  obtain ⟨hl, hh⟩ := second_of_four.mpr hsecond
  obtain ⟨hl₂, hh₂⟩ := tail_iff.mp (⟨by omega, by omega⟩ : Tail b₂)
  obtain ⟨hl₃, hh₃⟩ := tail_iff.mp (⟨by omega, by omega⟩ : Tail b₃)
  refine .longer (start_four (by omega) (by omega)) ?_
  rw [← Char.ofNat_toNat c, hc]
  exact .step hl hh (.step hl₂ hh₂ (.last hl₃ hh₃))

end

/-- The encoding of a character is read as that character. -/
theorem begins_of_encode {b : UInt8} {p : Bytes} {c : Char}
    (h : String.utf8EncodeChar c = b :: p) : Begins b p c := by
  have hrange : c.toNat < 0x80 ∨ (0x80 ≤ c.toNat ∧ c.toNat < 0x800) ∨
      (0x800 ≤ c.toNat ∧ c.toNat < 0x10000) ∨ 0x10000 ≤ c.toNat := by omega
  rcases hrange with h1 | ⟨h1, h2⟩ | ⟨h1, h2⟩ | h1
  · rw [encode_one h1] at h
    obtain ⟨rfl, rfl⟩ := List.cons.inj h
    exact begins_one h1
  · rw [encode_two h1 h2] at h
    obtain ⟨rfl, rfl⟩ := List.cons.inj h
    exact begins_two h1 h2
  · rw [encode_three h1 h2] at h
    obtain ⟨rfl, rfl⟩ := List.cons.inj h
    exact begins_three h1 h2
  · rw [encode_four h1] at h
    obtain ⟨rfl, rfl⟩ := List.cons.inj h
    exact begins_four h1

/-- **A character is read from its encoding**, and from no other bytes. -/
theorem begins_iff {b : UInt8} {p : Bytes} {c : Char} :
    Begins b p c ↔ String.utf8EncodeChar c = b :: p := ⟨Begins.encode_eq, begins_of_encode⟩

/-! ## Texts -/

/-- The encoding of characters is read as these characters, whatever comes behind it. -/
theorem scan_encode_append (cs : List Char) (rest : Bytes) :
    scan (cs.flatMap String.utf8EncodeChar ++ rest) = cs.map some ++ scan rest := by
  induction cs with
  | nil => rfl
  | cons c cs ih =>
    obtain ⟨b, p, hp⟩ : ∃ b p, String.utf8EncodeChar c = b :: p :=
      List.exists_cons_of_ne_nil String.utf8EncodeChar_ne_nil
    rw [List.flatMap_cons, List.append_assoc, hp, scan, (begins_iff.mpr hp).scanFrom_append]
    exact congrArg _ ih

theorem scan_encode (cs : List Char) :
    scan (cs.flatMap String.utf8EncodeChar) = cs.map some := by
  have h := scan_encode_append cs []
  rwa [List.append_nil, show scan [] = [] from rfl, List.append_nil] at h

/-- Bytes without a fault are an encoding. -/
theorem exists_encode : ∀ (n : Nat) (bs : Bytes), bs.length ≤ n → none ∉ scan bs →
    ∃ cs : List Char, bs = cs.flatMap String.utf8EncodeChar := by
  intro n
  induction n with
  | zero =>
    intro bs hn _
    exact ⟨[], List.length_eq_zero_iff.mp (Nat.le_zero.mp hn)⟩
  | succ n ih =>
    intro bs hn h
    cases bs with
    | nil => exact ⟨[], rfl⟩
    | cons b bs =>
      obtain ⟨p, c, rest, rfl, hc⟩ := exists_begins h
      rw [scan, ← List.cons_append, hc.scanFrom_append] at h
      rw [List.length_cons, List.length_append] at hn
      obtain ⟨cs, rfl⟩ := ih rest (by omega) fun hmem => h (List.mem_cons_of_mem _ hmem)
      refine ⟨c :: cs, ?_⟩
      rw [List.flatMap_cons, hc.encode_eq, List.cons_append]

theorem mapM_map_some {α : Type} (as : List α) : (as.map some).mapM id = some as := by
  induction as with
  | nil => rfl
  | cons a as ih =>
    rw [List.map_cons, List.mapM_cons, ih]
    rfl

theorem eq_map_some_of_mapM {α : Type} {l : List (Option α)} : ∀ {as : List α},
    l.mapM id = some as → l = as.map some := by
  induction l with
  | nil =>
    intro as h
    cases h
    rfl
  | cons o l ih =>
    intro as h
    rw [List.mapM_cons] at h
    obtain ⟨a, ha, h⟩ := Option.bind_eq_some_iff.mp h
    obtain ⟨as', hl, h⟩ := Option.bind_eq_some_iff.mp h
    cases h
    rw [ih hl, show o = some a from ha, List.map_cons]

/-- **Decoding undoes encoding**, and nothing but the encoding of a text decodes. -/
theorem decode?_eq_some_iff {bs : Bytes} {s : String} :
    decode? bs = some s ↔ bs = Bytes.ofString s := by
  unfold decode? Bytes.ofString
  rw [Option.map_eq_some_iff]
  constructor
  · rintro ⟨cs, hcs, rfl⟩
    have hscan := eq_map_some_of_mapM hcs
    have hfault : none ∉ scan bs := by
      rw [hscan]
      simp
    obtain ⟨ds, rfl⟩ := exists_encode _ bs (Nat.le_refl _) hfault
    rw [scan_encode] at hscan
    rw [(List.map_inj_right fun _ _ => Option.some.inj).mp hscan, String.toList_ofList]
  · rintro rfl
    refine ⟨s.toList, ?_, String.ofList_toList⟩
    rw [scan_encode, mapM_map_some]

end SpanScript.Utf8
