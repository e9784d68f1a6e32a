import SpanScript.Proofs.Bytes.Utf8

/-!
# Reading with replacements

A lossy reading gives a text for any bytes.  Where the encoding of a character stands it gives the
character, and where none stands it gives one replacement character for the longest part of the
bytes that could have been the beginning of one, or for a single byte that could not.  This says
all of it, in terms of the encoding only: the bytes have one such text, and `decodeLossy` gives it.

* `Unfinished`: a character whose encoding is not all there.
* `IllFormed`: the part of the bytes that a replacement character stands for.
* `Repairs`, `decodeLossy_eq_iff`: a text for any bytes, and that it is the lossy reading.
* `decodeLossy_append_take`: what is read of characters of which the last one is cut.
-/

namespace SpanScript.Utf8

variable {b : UInt8} {p rest bs : Bytes} {c : Char} {cs : List Char} {s : Pending}

/-! ## Ill-formed parts -/

/-- The bytes are some of the first ones of a character, not all of them. -/
def Unfinished (p : Bytes) : Prop := p ≠ [] ∧ ∃ q c, q ≠ [] ∧ String.utf8EncodeChar c = p ++ q

/-- No character stands at the head, and `p` is the longest part of the bytes that is a beginning
of one, or a single byte if there is none. -/
structure IllFormed (p rest : Bytes) : Prop where
  absent : ∀ c, ¬ String.utf8EncodeChar c <+: p ++ rest
  part : p.length = 1 ∨ Unfinished p
  longest : ∀ q, q <+: p ++ rest → Unfinished q → q.length ≤ p.length

theorem Unfinished.length_pos (h : Unfinished p) : 0 < p.length := List.length_pos_iff.mpr h.1

theorem IllFormed.length_pos (h : IllFormed p rest) : 0 < p.length :=
  h.part.elim (fun h => h ▸ Nat.one_pos) Unfinished.length_pos

/-- There is one ill-formed part at most. -/
theorem IllFormed.unique {p' rest' : Bytes} (h : IllFormed p rest) (h' : IllFormed p' rest')
    (he : p' ++ rest' = p ++ rest) : p' = p ∧ rest' = rest := by
  refine List.append_inj he (Nat.le_antisymm ?_ ?_)
  · rcases h'.part with h1 | hu
    · exact h1 ▸ h.length_pos
    · exact h.longest p' (he ▸ List.prefix_append ..) hu
  · rcases h.part with h1 | hu
    · exact h1 ▸ h'.length_pos
    · exact h'.longest p (he ▸ List.prefix_append ..) hu

theorem exists_begins_of_prefix (h : String.utf8EncodeChar c <+: b :: bs) :
    ∃ q, q <+: bs ∧ Begins b q c := by
  obtain ⟨a, q, hq⟩ := List.exists_cons_of_ne_nil (String.utf8EncodeChar_ne_nil (c := c))
  rw [hq] at h
  obtain ⟨rfl, hp⟩ := List.cons_prefix_cons.mp h
  exact ⟨q, hp, begins_iff.mpr hq⟩

theorem begins_longer_iff (hb : start b = .longer s) : Begins b p c ↔ s.Completes p c := by
  constructor
  · rintro (hw | ⟨hl, hp⟩)
    · rw [hb] at hw
      cases hw
    · obtain rfl := Start.longer.inj (hb.symm.trans hl)
      exact hp
  · exact .longer hb

theorem unfinished_cons_iff (hb : start b = .longer s) : Unfinished (b :: p) ↔ s.Extends p := by
  unfold Unfinished Pending.Extends
  simp only [List.cons_append, ← begins_iff, begins_longer_iff hb, ne_eq, reduceCtorEq,
    not_false_eq_true, true_and]

/-- A character that has been begun and is cut short is ill-formed. -/
theorem Pending.CutShort.illFormed (h : s.CutShort p rest) (hb : start b = .longer s) :
    IllFormed (b :: p) rest where
  absent c hc := by
    obtain ⟨q, hq, hbegins⟩ := exists_begins_of_prefix hc
    exact h.unended q c hq ((begins_longer_iff hb).mp hbegins)
  part := .inr ((unfinished_cons_iff hb).mpr h.goes)
  longest q hq hu := by
    rcases List.prefix_cons_iff.mp hq with rfl | ⟨t, rfl, ht⟩
    · exact Nat.zero_le _
    · exact Nat.succ_le_succ (h.longest t ht ((unfinished_cons_iff hb).mp hu))

theorem not_begins_of_fault (hb : start b = .fault) : ¬ Begins b p c := by
  rintro (hw | ⟨hl, -⟩)
  · rw [hb] at hw
    cases hw
  · rw [hb] at hl
    cases hl

/-- A byte that begins nothing is ill-formed. -/
theorem illFormed_of_fault (hb : start b = .fault) : IllFormed [b] rest where
  absent c hc := by
    obtain ⟨q, -, hbegins⟩ := exists_begins_of_prefix hc
    exact not_begins_of_fault hb hbegins
  part := .inl rfl
  longest q hq hu := by
    rcases List.prefix_cons_iff.mp hq with rfl | ⟨t, rfl, -⟩
    · exact Nat.zero_le _
    · obtain ⟨-, q, c, -, hc⟩ := hu
      exact absurd (begins_iff.mpr hc) (not_begins_of_fault hb)

/-- At the head of bytes a character is read, or an ill-formed part as one fault. -/
theorem character_or_illFormed (b : UInt8) (bs : Bytes) :
    (∃ c rest, b :: bs = String.utf8EncodeChar c ++ rest) ∨
      ∃ p rest, b :: bs = p ++ rest ∧ IllFormed p rest ∧ scan (p ++ rest) = none :: scan rest := by
  cases hb : start b with
  | whole c => exact .inl ⟨c, bs, by rw [begins_iff.mp (.whole hb), List.singleton_append]⟩
  | fault => exact .inr ⟨[b], bs, rfl, illFormed_of_fault hb, by
      rw [scan, List.singleton_append, scanFrom, hb, scan]⟩
  | longer s =>
    obtain ⟨low, high, bits, due, rfl, hle⟩ := start_longer hb
    rcases completes_or_cutShort due bits low high bs hle with
      ⟨p, c, rest, rfl, hp⟩ | ⟨p, rest, rfl, hp⟩
    · exact .inl ⟨c, rest, by rw [begins_iff.mp (.longer hb hp), List.cons_append]⟩
    · refine .inr ⟨b :: p, rest, rfl, hp.illFormed hb, ?_⟩
      rw [scan, List.cons_append, scanFrom, hb]
      exact hp.scan

/-- Where no character stands, one fault is read, of the part that is ill-formed. -/
theorem IllFormed.scan_eq (h : IllFormed p rest) : scan (p ++ rest) = none :: scan rest := by
  obtain ⟨b, q, rfl⟩ := List.exists_cons_of_ne_nil (List.length_pos_iff.mp h.length_pos)
  rcases character_or_illFormed b (q ++ rest) with ⟨c, r, hc⟩ | ⟨p', rest', he, h', hscan⟩
  · exact absurd ⟨r, hc.symm⟩ (h.absent c)
  · obtain ⟨rfl, rfl⟩ := h.unique h' he.symm
    exact hscan

/-! ## Texts for any bytes -/

/-- The text that bytes stand for, with a replacement character for each part that is
ill-formed. -/
inductive Repairs : Bytes → List Char → Prop
  | nil : Repairs [] []
  | character {c : Char} {rest : Bytes} {cs : List Char} : Repairs rest cs →
      Repairs (String.utf8EncodeChar c ++ rest) (c :: cs)
  | illFormed {p rest : Bytes} {cs : List Char} : IllFormed p rest → Repairs rest cs →
      Repairs (p ++ rest) (replacement :: cs)

theorem scan_character (c : Char) (rest : Bytes) :
    scan (String.utf8EncodeChar c ++ rest) = some c :: scan rest := by
  have h := scan_encode_append [c] rest
  rwa [List.flatMap_singleton] at h

theorem Repairs.eq_map_scan (h : Repairs bs cs) : cs = (scan bs).map (·.getD replacement) := by
  induction h with
  | nil => rfl
  | character _ ih => rw [scan_character, List.map_cons, ← ih]; rfl
  | illFormed hp _ ih => rw [hp.scan_eq, List.map_cons, ← ih]; rfl

theorem repairs_map_scan (bs : Bytes) : Repairs bs ((scan bs).map (·.getD replacement)) := by
  -- what comes behind a character or an ill-formed part is shorter
  induction hn : bs.length using Nat.strongRecOn generalizing bs with
  | ind n ih =>
    cases bs with
    | nil => exact .nil
    | cons b bs =>
      have hshorter {x rest : Bytes} (he : b :: bs = x ++ rest) (hx : 0 < x.length) :
          rest.length < n := by
        rw [← hn, he, List.length_append]
        omega
      rcases character_or_illFormed b bs with ⟨c, rest, he⟩ | ⟨p, rest, he, hp, -⟩
      · have hlt := hshorter he (String.length_utf8EncodeChar c ▸ c.utf8Size_pos)
        rw [he, scan_character]
        exact .character (ih _ hlt rest rfl)
      · have hlt := hshorter he hp.length_pos
        rw [he, hp.scan_eq]
        exact .illFormed hp (ih _ hlt rest rfl)

/-- **The lossy reading of bytes is the text that they stand for**, with a replacement character
for each part that is ill-formed, and there is no other such text. -/
theorem decodeLossy_eq_iff {text : String} : decodeLossy bs = text ↔ Repairs bs text.toList := by
  constructor
  · rintro rfl
    rw [decodeLossy, String.toList_ofList]
    exact repairs_map_scan bs
  · intro h
    rw [decodeLossy, ← h.eq_map_scan, String.ofList_toList]

/-! ## Texts that are cut -/

/-- No encoding is a proper beginning of another. -/
theorem eq_of_prefix_encode {c d : Char}
    (h : String.utf8EncodeChar d <+: String.utf8EncodeChar c) : d = c := by
  obtain ⟨r, hr⟩ := h
  have hc := scan_character c []
  rw [List.append_nil, ← hr, scan_character] at hc
  exact Option.some.inj (List.cons.inj hc).1

/-- Some of the first bytes of a character, with nothing behind them, are one ill-formed part. -/
theorem illFormed_take {k : Nat} (h0 : 0 < k) (hk : k < (String.utf8EncodeChar c).length) :
    IllFormed ((String.utf8EncodeChar c).take k) [] := by
  have hlength : ((String.utf8EncodeChar c).take k).length = k :=
    List.length_take_of_le (Nat.le_of_lt hk)
  refine ⟨fun d hd => ?_, .inr ⟨?_, (String.utf8EncodeChar c).drop k, c, ?_, ?_⟩, fun q hq _ => ?_⟩
  · -- it would be the same character, which is longer
    rw [List.append_nil] at hd
    have hle := hd.length_le
    rw [eq_of_prefix_encode (hd.trans (List.take_prefix ..)), hlength] at hle
    omega
  · exact List.length_pos_iff.mp (by rwa [hlength])
  · exact fun h => absurd (List.drop_eq_nil_iff.mp h) (Nat.not_le.mpr hk)
  · exact (List.take_append_drop ..).symm
  · rw [List.append_nil] at hq
    exact hq.length_le

theorem decodeLossy_ofString_append (s : String) (rest : Bytes) :
    decodeLossy (Bytes.ofString s ++ rest) = s ++ decodeLossy rest := by
  unfold decodeLossy Bytes.ofString
  rw [scan_encode_append, List.map_append, List.map_map, String.ofList_append]
  congr 1
  exact (congrArg String.ofList (List.map_id _)).trans String.ofList_toList

/-- **A text is read as it is.** -/
theorem decodeLossy_ofString (s : String) : decodeLossy (Bytes.ofString s) = s := by
  have h := decodeLossy_ofString_append s []
  rwa [List.append_nil, show decodeLossy [] = "" from rfl, String.append_empty] at h

/-- **Of a character that is cut one replacement character is read**, behind the characters before
it. -/
theorem decodeLossy_append_take (s : String) {k : Nat} (h0 : 0 < k)
    (hk : k < (String.utf8EncodeChar c).length) :
    decodeLossy (Bytes.ofString s ++ (String.utf8EncodeChar c).take k)
      = s ++ String.singleton replacement := by
  have hcut : Repairs ((String.utf8EncodeChar c).take k ++ [])
      (String.singleton replacement).toList := by
    rw [String.toList_singleton]
    exact .illFormed (illFormed_take h0 hk) .nil
  rw [List.append_nil] at hcut
  rw [decodeLossy_ofString_append, decodeLossy_eq_iff.mpr hcut]

end SpanScript.Utf8
