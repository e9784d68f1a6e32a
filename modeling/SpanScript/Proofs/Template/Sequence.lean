import SpanScript.Proofs.Template.Directive

/-!
# A template as a sequence of bytes

A template that is open answers for indices, slices, searches and comparisons as its logical
bytes do, though each of them finds the place in the whole file in its own way.  A template that
has been closed, once or more often, answers as no bytes do.

There is one exception.  A mapped file is searched from places of 64 bits only: a search that
begins farther on fails, where in the bytes, and in a file that has been read, nothing is found.

* `Bytes.offsetOf`, `Bytes.between`: what an index and a slice of bytes mean.
* `DirectiveLine`: a directive line and the bytes behind it.
* `Template.AnswersAs`: to answer as bytes do; `answersAs`: which bytes these are.
* `Template.Used`: what becomes of a template that is used; `answersAs_of_used`: how it answers
  then.
-/

namespace SpanScript

/-! ## Indices and slices of bytes -/

namespace Bytes

/-- The offset that a number stands for; a negative one is counted from the end. -/
def offsetOf (bs : Bytes) (i : Int) : Int := if i < 0 then i + bs.length else i

/-- The bytes at the offsets from the one bound on and before the other; a missing bound is the
end on its side. -/
def between (bs : Bytes) (first last : Option Int) : Bytes :=
  let lo := (first.map bs.offsetOf).getD 0
  let hi := (last.map bs.offsetOf).getD bs.length
  (bs.zipIdx.filter fun x => decide (lo ≤ x.2 ∧ x.2 < hi)).map Prod.fst

theorem map_filter_zipIdx (lo hi : Int) : ∀ (bs : Bytes) (n : Nat),
    ((bs.zipIdx n).filter fun x => decide (lo ≤ x.2 ∧ x.2 < hi)).map Prod.fst
      = bs.window (lo - n).toNat (hi - n).toNat := by
  intro bs
  induction bs with
  | nil => intro n; simp [window]
  | cons b bs ih =>
    intro n
    rw [List.zipIdx_cons]
    by_cases hlo : lo ≤ n
    · by_cases hhi : n < hi
      · -- the head is in the slice
        have e : (hi - n).toNat = (hi - (n + 1 : Nat)).toNat + 1 := by omega
        have hz : (lo - n).toNat = 0 := by omega
        have hz' : (lo - (n + 1 : Nat)).toNat = 0 := by omega
        rw [List.filter_cons_of_pos (by simpa using ⟨hlo, hhi⟩), List.map_cons, ih, hz, hz', e]
        rfl
      · -- the slice has ended
        rw [List.filter_cons_of_neg (by simpa using fun _ => by omega), ih,
          window_eq_nil _ (by omega), window_eq_nil _ (by omega)]
    · -- the slice has not begun
      have e : (lo - n).toNat = (lo - (n + 1 : Nat)).toNat + 1 := by omega
      have e' : (hi - n).toNat - ((lo - (n + 1 : Nat)).toNat + 1)
          = (hi - (n + 1 : Nat)).toNat - (lo - (n + 1 : Nat)).toNat := by omega
      rw [List.filter_cons_of_neg (by simpa using fun h => absurd h hlo), ih, window, window, e, e',
        List.drop_succ_cons]

/-- A slice is the window between its bounds. -/
theorem between_eq (bs : Bytes) (first last : Option Int) :
    bs.between first last = bs.window ((first.map bs.offsetOf).getD 0).toNat
      ((last.map bs.offsetOf).getD bs.length).toNat := by
  unfold between
  rw [map_filter_zipIdx, Int.natCast_zero, Int.sub_zero, Int.sub_zero]

end Bytes

/-! ## The directive line -/

/-- A directive line and the logical bytes behind it: there is none if the bytes do not begin with
`#!`, and if no newline ends it, it is all there is. -/
inductive DirectiveLine : Bytes → Bytes → Prop
  | absent {body : Bytes} : ¬ [35, 33] <+: body → DirectiveLine [] body
  | ended {line body : Bytes} : Bytes.newline ∉ line →
      DirectiveLine ([35, 33] ++ line ++ [Bytes.newline]) body
  | unended {line : Bytes} : Bytes.newline ∉ line → DirectiveLine ([35, 33] ++ line) []

/-- Every file has a directive line, maybe an empty one. -/
theorem exists_directiveLine (raw : Bytes) :
    ∃ line body, raw = line ++ body ∧ DirectiveLine line body := by
  by_cases hp : [35, 33] <+: raw
  · obtain ⟨rest, rfl⟩ := hp
    by_cases hn : Bytes.newline ∈ rest
    · obtain ⟨line, body, rfl, hline⟩ := List.eq_append_cons_of_mem hn
      exact ⟨[35, 33] ++ line ++ [Bytes.newline], body, by simp, .ended hline⟩
    · exact ⟨[35, 33] ++ rest, [], by simp, .unended hn⟩
  · exact ⟨[], raw, rfl, .absent hp⟩

/-- The directive line ends where the logical bytes begin. -/
theorem DirectiveLine.directiveEnd_eq {line body : Bytes} (h : DirectiveLine line body) :
    directiveEnd (line ++ body) = line.length := by
  cases h with
  | absent hp => exact directiveEnd_of_not_prefix hp
  | @ended line _ hline =>
    have hraw : [35, 33] ++ line ++ [Bytes.newline] ++ body = withDirective line body := by
      simp [withDirective]
    rw [hraw, directiveEnd_withDirective hline]
    simp
  | @unended line hline =>
    have hnone : Bytes.findFrom [Bytes.newline] 0 ([35, 33] ++ line) = none := by
      refine Option.eq_none_iff_forall_ne_some.mpr fun n hf => ?_
      obtain ⟨-, hp, -⟩ := Bytes.findFrom_eq_some hf
      have hmem := List.mem_of_mem_drop (hp.subset (List.mem_singleton_self _))
      rcases List.mem_append.mp hmem with hmark | hrest
      · exact absurd hmark (by decide)
      · exact absurd hrest hline
    rw [List.append_nil]
    unfold directiveEnd
    simp only [List.cons_append, List.nil_append] at hnone ⊢
    simp only [hnone]

namespace Template

variable {t u : Template} {line bs : Bytes} {n : Nat}

/-! ## Answers -/

/-- The template answers as the bytes do, and a search may begin at the offsets that `takes`
holds of. -/
structure AnswersAs (t : Template) (bs : Bytes) (takes : Nat → Prop) : Prop where
  slice : ∀ first last, t.slice first last none = .ok (bs.between first last)
  get : ∀ i,
    (∃ (n : Nat) (b : UInt8), bs.offsetOf i = n ∧ bs[n]? = some b ∧ t.get i = .ok b) ∨
    ((∀ n : Nat, n < bs.length → bs.offsetOf i ≠ n) ∧ t.get i = .error .indexOutOfRange)
  find : ∀ (sub : Bytes) (start : Nat), sub ≠ [] → takes start →
    (∃ n : Nat, Bytes.FirstAt sub bs start n ∧ t.find sub start = .ok (some n)) ∨
    (Bytes.AbsentFrom sub bs start ∧ t.find sub start = .ok none)
  refuses : ∀ (sub : Bytes) (start : Nat), ¬ takes start →
    t.find sub start = .error .placeTooLarge
  startsWith : ∀ (sub : Bytes) (offset : Nat),
    t.startsWith sub offset = true ↔ sub <+: bs.drop offset

theorem clamp_eq (bs : Bytes) (i : Int) :
    clamp bs.length i = min (bs.offsetOf i).toNat bs.length := by
  unfold clamp Bytes.offsetOf
  split <;> omega

theorem length_eq (t : Template) : t.length = t.body.length := by
  rw [length, body, List.length_drop]

theorem window_eq_between (t : Template) (first last : Option Int) :
    t.window first last = t.body.between first last := by
  have hraw (a b : Nat) : t.raw.window (t.start + a) (t.start + b) = t.body.window a b := by
    rw [Bytes.window, Bytes.window, body, List.drop_drop, Nat.add_sub_add_left]
  have hmin := Bytes.window_min t.body
  rw [Bytes.between_eq, ← hmin]
  unfold window
  rw [hraw, length_eq]
  congr 1
  · cases first with
    | none => simp
    | some a => exact clamp_eq _ a
  · cases last with
    | none => simp
    | some b => exact clamp_eq _ b

theorem addressable_iff (n : Nat) : addressable n = true ↔ n < Nat.pow 2 63 := by
  unfold addressable
  rw [Bool.and_eq_true, decide_eq_true_iff, decide_eq_true_iff]
  exact ⟨fun h => Int.ofNat_lt.mp h.2, fun h =>
    ⟨Int.add_nonneg (Int.natCast_nonneg n) (Int.natCast_nonneg _), Int.ofNat_lt.mpr h⟩⟩

theorem find_eq (hraw : t.raw = line ++ bs) (hstart : t.start = line.length) {sub : Bytes}
    (hn : sub ≠ []) {start : Nat} (htakes : t.mapping = true → line.length + start < Nat.pow 2 63) :
    t.find sub start = .ok ((bs.find sub start).map Int.ofNat) := by
  have hplace : (t.start : Int) + start = (line.length + start : Nat) := by rw [hstart]; rfl
  have hin : ¬ (t.mapping && !addressable (line.length + start : Nat)) = true := by
    intro h
    obtain ⟨hm, ha⟩ := Bool.and_eq_true_iff.mp h
    rw [(addressable_iff _).mpr (htakes hm)] at ha
    cases ha
  have hpos : ¬ ((line.length + start : Nat) : Int) < 0 := by omega
  -- a mapped file is searched from its end if not from the place itself, which is as well
  have hsearch : t.raw.find sub
      (if t.mapping then min (line.length + start) t.raw.length else line.length + start)
        = (bs.find sub start).map (· + line.length) := by
    rw [← Bytes.find_append_right hn, hraw]
    split
    · exact Bytes.find_min hn _
    · rfl
  unfold find
  dsimp only
  rw [hplace, if_neg hin, if_neg hpos, Int.toNat_natCast, hsearch, hstart]
  cases bs.find sub start with
  | none => rfl
  | some k =>
    have hk : ((k + line.length : Nat) : Int) - line.length = k := by omega
    exact congrArg (fun n : Int => Except.ok (some n)) hk

theorem find_refuses (hstart : t.start = line.length) (sub : Bytes) {start : Nat}
    (hm : t.mapping = true) (hfar : ¬ line.length + start < Nat.pow 2 63) :
    t.find sub start = .error .placeTooLarge := by
  have hplace : (t.start : Int) + start = (line.length + start : Nat) := by rw [hstart]; rfl
  have ha : addressable (line.length + start : Nat) = false :=
    Bool.eq_false_iff.mpr fun h => hfar ((addressable_iff _).mp h)
  unfold find
  dsimp only
  rw [hplace, hm, ha]
  rfl

theorem body_eq (hraw : t.raw = line ++ bs) (hstart : t.start = line.length) : t.body = bs := by
  rw [body, hraw, hstart, List.drop_left]

/-- **A template answers as the bytes behind its directive line do.** -/
theorem answersAs (hraw : t.raw = line ++ bs) (hstart : t.start = line.length) :
    t.AnswersAs bs fun start => t.mapping = true → line.length + start < Nat.pow 2 63 where
  slice first last := by
    rw [← body_eq hraw hstart, ← window_eq_between]
    rfl
  get i := by
    have hindex : (if i < 0 then i + (t.length : Int) else i) = bs.offsetOf i := by
      rw [length_eq, body_eq hraw hstart, Bytes.offsetOf]
    unfold get
    dsimp only
    rw [hindex, body_eq hraw hstart]
    rcases Int.lt_or_le (bs.offsetOf i) 0 with hneg | hpos
    · exact .inr ⟨fun n _ hn => by omega, if_pos hneg⟩
    · obtain ⟨n, hn⟩ := Int.eq_ofNat_of_zero_le hpos
      rw [if_neg (by omega), hn, Int.toNat_natCast]
      cases hb : bs[n]? with
      | some b => exact .inl ⟨n, b, rfl, hb, rfl⟩
      | none =>
        have hle := List.getElem?_eq_none_iff.mp hb
        exact .inr ⟨fun k hk hkn => by omega, rfl⟩
  find sub start hn htakes := by
    rw [find_eq hraw hstart hn htakes]
    cases hf : bs.find sub start with
    | some n => exact .inl ⟨n, Bytes.firstAt_of_find hf, rfl⟩
    | none => exact .inr ⟨Bytes.absentFrom_of_find hn hf, rfl⟩
  refuses sub start hfar := by
    obtain ⟨hm, hfar⟩ := Classical.not_imp.mp hfar
    exact find_refuses hstart sub hm hfar
  startsWith sub offset := by
    have hoffset (k : Nat) : bs.offsetOf k = k := if_neg (by omega)
    unfold startsWith
    rw [window_eq_between, body_eq hraw hstart, Bytes.between_eq, beq_iff_eq]
    simp only [Option.map_some, Option.getD_some, ← Int.natCast_add, hoffset, Int.toNat_natCast]
    exact ⟨fun h => h ▸ List.take_prefix _ _, Bytes.window_of_prefix⟩

/-! ## Use -/

/-- What a template is after uses of it, with the number of times that it has been closed.  To ask
for a place makes it find its newlines; other questions leave it as it is. -/
inductive Used (t : Template) : Nat → Template → Prop
  | opened : Used t 0 t
  | placed {n : Nat} {u : Template} : Used t n u → Used t n u.indexed
  | closed {n : Nat} {u : Template} : Used t n u → Used t (n + 1) u.close

/-- A template keeps its bytes until it is closed, and has none from then on. -/
theorem Used.bytes (h : Used t n u) (ht : t.closed = false) :
    (n = 0 → u.raw = t.raw ∧ u.start = t.start ∧ u.mapping = t.mapping ∧ u.closed = false) ∧
    (0 < n → u.raw = [] ∧ u.start = 0 ∧ u.mapping = false ∧ u.closed = true) := by
  induction h with
  | opened => exact ⟨fun _ => ⟨rfl, rfl, rfl, ht⟩, fun h => absurd h (Nat.lt_irrefl 0)⟩
  | placed _ ih => exact ih
  | @closed n u _ ih =>
    refine ⟨fun h => absurd h (Nat.succ_ne_zero n), fun _ => ?_⟩
    cases n with
    | zero =>
      obtain ⟨-, -, -, hc⟩ := ih.1 rfl
      simp [close, mapping, hc]
    | succ n =>
      obtain ⟨hraw, hstart, hm, hc⟩ := ih.2 (Nat.succ_pos n)
      rw [close, if_pos hc]
      exact ⟨hraw, hstart, hm, hc⟩

/-- **A template is its logical bytes.**  Every file has a directive line, maybe an empty one, and
logical bytes behind it.  However it has been used, until it is closed the template answers as
these bytes do, but that a mapped file is not searched from a place of more than 64 bits; and
after it has been closed, once or more often, it answers as no bytes do. -/
theorem answersAs_of_used (path : String) (holding : Holding) (raw : Bytes) :
    (∃ line bs, raw = line ++ bs ∧ DirectiveLine line bs) ∧
    ∀ line bs, raw = line ++ bs → DirectiveLine line bs → ∀ n u,
      Used (ofRaw path holding raw) n u →
        (n = 0 → u.AnswersAs bs fun start => holding = .mapped → line.length + start < Nat.pow 2 63) ∧
        (0 < n → u.AnswersAs [] fun _ => True) := by
  refine ⟨exists_directiveLine raw, ?_⟩
  rintro line bs rfl hline n u hu
  obtain ⟨hopen, hclosed⟩ := hu.bytes rfl
  refine ⟨fun hn => ?_, fun hn => ?_⟩
  · obtain ⟨hraw, hstart, hm, -⟩ := hopen hn
    have h := answersAs hraw (hstart.trans hline.directiveEnd_eq)
    have hmapped : u.mapping = true ↔ holding = .mapped := by
      rw [hm, mapping, ofRaw, Bool.not_false, Bool.and_true]
      exact decide_eq_true_iff
    simpa only [hmapped] using h
  · obtain ⟨hraw, hstart, hm, -⟩ := hclosed hn
    have h := @answersAs u [] [] hraw hstart
    rw [hm] at h
    simpa using h

/-- The directive line of `#!{{`, a newline and `ab{{` holds the marker as well, and no search
finds it there.  The template answers as `ab{{` does before it is closed, and when its newlines are
known and it has been closed twice, as no bytes. -/
theorem answersAs_of_used_marker :
    let bs : Bytes := [97, 98, 123, 123]
    let t := ofRaw "p" .mapped ([35, 33, 123, 123, 10] ++ bs)
    DirectiveLine [35, 33, 123, 123, 10] bs ∧
    (t.AnswersAs bs fun start => Holding.mapped = .mapped → 5 + start < Nat.pow 2 63) ∧
    t.find [123, 123] (0 : Nat) = .ok (some (2 : Nat)) ∧
    t.Used 2 t.indexed.close.close ∧ t.indexed.close.close.AnswersAs [] fun _ => True := by
  intro bs t
  have hline : DirectiveLine [35, 33, 123, 123, 10] bs :=
    @DirectiveLine.ended [123, 123] bs (by decide)
  have hused : t.Used 2 t.indexed.close.close := .closed (.closed (.placed .opened))
  have h := (answersAs_of_used "p" .mapped ([35, 33, 123, 123, 10] ++ bs)).2 _ _ rfl hline
  have hopen := (h 0 t .opened).1 rfl
  have hfind : t.find [123, 123] (0 : Nat) = .ok (some (2 : Nat)) := by
    rw [find_eq rfl hline.directiveEnd_eq (by decide) (fun _ => by decide)]
    rfl
  exact ⟨hline, hopen, hfind, hused, (h 2 _ hused).2 (by decide)⟩

/-- From a place of more than 64 bits a mapped file is not searched: the search fails, where the
bytes are not found, and are not found in a file that has been read. -/
theorem mapped_search_refused :
    (ofRaw "p" .mapped [97, 98]).find [98] (Nat.pow 2 63) = .error .placeTooLarge ∧
    (ofRaw "p" .read [97, 98]).find [98] (Nat.pow 2 63) = .ok none ∧
    Bytes.AbsentFrom [98] [97, 98] (Nat.pow 2 63) := by
  refine ⟨rfl, rfl, fun k hk hp => ?_⟩
  have hend := Bytes.add_length_le_of_prefix (by decide) hp
  simp only [List.length_cons, List.length_nil] at hend
  have hfar : 9223372036854775808 ≤ k := hk
  omega

end Template

end SpanScript
