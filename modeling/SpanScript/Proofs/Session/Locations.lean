import Mathlib.Data.List.Induction
import SpanScript.Proofs.Template.Directive

/-!
# One place, counted three ways

The place of an offset is found in three ways.  A template looks for it in the list of its
newlines; for bytes that are no template the newlines before it are counted; and a cursor
that reads tokens counts along, byte by byte.  They agree at every offset of every template,
on newlines and behind them, and behind the directive line.

* `Bytes.locate_add`: counting along agrees with counting the newlines before an offset.
* `Template.place_eq_locate`: so does the list of newlines.
* `Cursor.Counts.next`, `Cursor.Counts.next_error`: a cursor that counts in a text gives each
  token its place there, and each fault.
* `Template.locations_agree`: all three together, and what a session makes of a statement.
-/

namespace SpanScript

/-! ## Counting along -/

namespace Bytes

theorem lineStart_concat (bs : Bytes) (b : UInt8) :
    lineStart (bs ++ [b]) = if b == newline then bs.length + 1 else lineStart bs := by
  unfold lineStart
  rw [List.reverse_append, List.reverse_singleton, List.singleton_append, List.length_append,
    List.length_singleton]
  by_cases hb : b == newline
  · rw [if_pos hb, List.takeWhile_cons_of_neg (by simpa using hb), List.length_nil, Nat.sub_zero]
  · rw [if_neg hb, List.takeWhile_cons_of_pos (by simpa using hb), List.length_cons,
      Nat.add_sub_add_right]

theorem lineStart_le (bs : Bytes) : lineStart bs ≤ bs.length := Nat.sub_le _ _

/-- The place behind bytes, by the newlines among them. -/
theorem locate_length (bs : Bytes) : bs.locate bs.length = Location.first.after bs := by
  unfold locate
  dsimp only
  rw [List.take_length]
  induction bs using List.reverseRecOn with
  | nil => rfl
  | append_singleton bs b ih =>
    have hle := lineStart_le bs
    rw [Location.after_append, ← ih, Location.after_cons, Location.after_nil, Location.step,
      lineStart_concat, List.count_append, List.length_append, List.length_singleton]
    split
    · next hb =>
      rw [eq_of_beq hb, List.count_singleton_self, Nat.sub_self]
    · next hb =>
      rw [List.count_singleton, if_neg hb, Nat.add_zero, Nat.succ_sub hle]

theorem locate_of_le {bs : Bytes} {offset : Nat} (h : offset ≤ bs.length) :
    bs.locate offset = Location.first.after (bs.take offset) := by
  rw [← locate_length, List.length_take_of_le h]
  unfold locate
  rw [List.take_take, Nat.min_self]

/-- **Counting along** from an offset comes to the place of a later one. -/
theorem locate_add {bs : Bytes} {offset n : Nat} (h : n ≤ (bs.drop offset).length) :
    bs.locate (offset + n) = (bs.locate offset).after ((bs.drop offset).take n) := by
  rw [List.length_drop] at h
  cases n with
  | zero => rfl
  | succ n =>
    rw [locate_of_le (by omega), locate_of_le (by omega), ← Location.after_append, List.take_add]

end Bytes

/-! ## The list of newlines -/

namespace Template

theorem newlineOffsets_lt : ∀ (bs : Bytes) (n k : Nat), k ∈ newlineOffsets n bs →
    k < n + bs.length := by
  intro bs
  induction bs with
  | nil => intro n k h; cases h
  | cons b bs ih =>
    intro n k h
    rw [List.length_cons]
    rw [newlineOffsets] at h
    split at h
    · rcases List.mem_cons.mp h with rfl | h
      · omega
      · have := ih _ _ h
        omega
    · have := ih _ _ h
      omega

/-- The newlines before a place are those of the bytes before it. -/
theorem takeWhile_newlineOffsets (raw : Bytes) (n : Nat) :
    (newlineOffsets 0 raw).takeWhile (fun k : Nat => decide ((k : Int) < (n : Int)))
      = newlineOffsets 0 (raw.take n) := by
  rcases Nat.le_total n raw.length with hn | hn
  · have hlen := List.length_take_of_le hn
    conv_lhs => rw [← List.take_append_drop n raw]
    rw [takeWhile_newlineOffsets_append (by omega), List.takeWhile_eq_self_iff]
    intro k hk
    have := newlineOffsets_lt _ _ _ hk
    rw [decide_eq_true_eq]
    omega
  · rw [List.take_of_length_le hn, List.takeWhile_eq_self_iff]
    intro k hk
    have := newlineOffsets_lt _ _ _ hk
    rw [decide_eq_true_eq]
    omega

/-- The list of newlines tells how many there are, and where the last line begins. -/
theorem newlineOffsets_spec (bs : Bytes) :
    (newlineOffsets 0 bs).length = bs.count Bytes.newline ∧
      (match (newlineOffsets 0 bs).getLast? with | some n => (n : Int) + 1 | none => 0)
        = (Bytes.lineStart bs : Int) := by
  induction bs using List.reverseRecOn with
  | nil => exact ⟨rfl, rfl⟩
  | append_singleton bs b ih =>
    rw [newlineOffsets_append, Nat.zero_add, newlineOffsets, List.count_append,
      Bytes.lineStart_concat]
    split
    · next hb =>
      rw [eq_of_beq hb, List.count_singleton_self]
      refine ⟨?_, ?_⟩
      · rw [List.length_append, ih.1]
        rfl
      · rw [newlineOffsets, List.getLast?_concat]
        rfl
    · next hb =>
      rw [List.count_singleton, if_neg hb, newlineOffsets, List.append_nil]
      exact ih

/-- **A template finds the place** that counting the newlines of the whole file gives. -/
theorem place_eq_locate (path : String) (holding : Holding) (raw : Bytes) (offset : Nat) :
    (ofRaw path holding raw).place offset
      = ((raw.locate (directiveEnd raw + offset)).line,
        ((raw.locate (directiveEnd raw + offset)).column : Int)) := by
  obtain ⟨hlines, hstart⟩ := newlineOffsets_spec (raw.take (directiveEnd raw + offset))
  have hle : Bytes.lineStart (raw.take (directiveEnd raw + offset)) ≤ directiveEnd raw + offset :=
    Nat.le_trans (Bytes.lineStart_le _) (List.length_take_le _ _)
  have hbefore := takeWhile_newlineOffsets raw (directiveEnd raw + offset)
  have hcolumn : ∀ (n start : Nat) (z : Int), start ≤ n → z = start →
      (n : Int) - z + 1 = ((n - start + 1 : Nat) : Int) := by
    intro n start z h hz
    omega
  unfold place
  dsimp only [ofRaw]
  rw [Option.getD_none, ← Int.natCast_add, hbefore, hlines]
  exact Prod.ext rfl (hcolumn _ _ _ hle hstart)

theorem locate_placed_ofRaw (path : String) (holding : Holding) (raw : Bytes) (offset : Nat) :
    (ofRaw path holding raw).placed.locate offset = raw.locate (directiveEnd raw + offset) := by
  have hplace : (ofRaw path holding raw).indexed.place offset
      = (ofRaw path holding raw).place offset := rfl
  rw [locate_placed, hplace, place_eq_locate]
  rfl

end Template

/-! ## Cursors -/

theorem Quoted.length_of_badEscape {quote b : UInt8} {n : Nat} : ∀ {bs : Bytes},
    read quote bs = .badEscape b n → n ≤ bs.length := by
  intro bs
  fun_induction read quote bs generalizing n with
  | case1 | case2 | case3 | case4 => exact fun heq => by cases heq
  | case5 a _ _ _ e rest v hv ih =>
    cases h : read quote rest <;> intro heq <;> cases heq
    have := ih h
    simp only [List.length_cons]
    omega
  | case6 a _ _ _ e rest hv =>
    intro heq
    cases heq
    simp only [List.length_cons]
    omega
  | case7 a rest _ _ _ ih =>
    cases h : read quote rest <;> intro heq <;> cases heq
    have := ih h
    simp only [List.length_cons]
    omega

/-- A problem with a token is found at its beginning, but for an escape that stands for
nothing, which is found among the bytes of the token. -/
theorem Lexeme.inside_of_scan {bs : Bytes} {e : LexStop} (h : scan bs = .error e) :
    (e.inside = false ∧ ∀ b, e.problem ≠ .unknownEscape b) ∨
      (e.inside = true ∧ (∃ b, e.problem = .unknownEscape b) ∧ e.length ≤ bs.length) := by
  cases bs with
  | nil => cases h
  | cons b rest =>
    rw [scan] at h
    split at h
    · cases h
    split at h
    · cases h
    split at h
    · unfold quoted at h
      split at h
      · split at h <;> cases h
        exact .inl ⟨rfl, fun _ hb => by cases hb⟩
      · cases h
        exact .inl ⟨rfl, fun _ hb => by cases hb⟩
      · next hq =>
        cases h
        exact .inr ⟨rfl, ⟨_, rfl⟩, Nat.succ_le_succ (Quoted.length_of_badEscape hq)⟩
    split at h
    · split at h <;> cases h
      exact .inl ⟨rfl, fun _ hb => by cases hb⟩
    split at h
    · cases h
    split at h
    · cases h
    · cases h
      exact .inl ⟨rfl, fun _ hb => by cases hb⟩

namespace Cursor

/-- The offset at which the next token begins. -/
def tokenStart (c : Cursor) : Nat := c.offset + gap c.rest

/-- The cursor counts places in a text whose first `k` bytes are in front of offset zero. -/
structure Counts (bs : Bytes) (k : Nat) (c : Cursor) : Prop where
  rest : c.rest <+: bs.drop (k + c.offset)
  location : c.location = bs.locate (k + c.offset)

namespace Counts

variable {bs : Bytes} {k : Nat} {c d : Cursor} {τ : List Token}

theorem move (h : c.Counts bs k) {n : Nat} (hn : n ≤ c.rest.length) : (c.move n).Counts bs k := by
  obtain ⟨r, hr⟩ := h.rest
  have htake : c.rest.take n = (bs.drop (k + c.offset)).take n := by
    rw [← hr, List.take_append_of_le_length hn]
  have hlen := h.rest.length_le
  refine ⟨⟨r, ?_⟩, ?_⟩
  · show c.rest.drop n ++ r = bs.drop (k + (c.offset + n))
    rw [← Nat.add_assoc, ← List.drop_drop, ← hr, List.drop_append_of_le_length hn]
  · show c.location.after (c.rest.take n) = bs.locate (k + (c.offset + n))
    rw [← Nat.add_assoc, Bytes.locate_add (Nat.le_trans hn hlen), h.location, htake]

/-- A token has the place of the offset that it begins at. -/
theorem next {t : Token} (h : c.Counts bs k) (hn : c.next = .ok (t, d)) :
    t.start = c.tokenStart ∧ t.location = bs.locate (k + t.start) ∧ d.Counts bs k := by
  have hm := h.move (gap_le c.rest)
  unfold Cursor.next at hn
  dsimp only at hn
  split at hn
  · next l hl =>
    have hlen : l.length ≤ (c.move (gap c.rest)).rest.length := by
      cases hr : (c.move (gap c.rest)).rest with
      | nil =>
        rw [hr] at hl
        cases hl
        exact Nat.zero_le _
      | cons b rest =>
        rw [hr] at hl
        exact (Lexeme.length_of_scan hl).2.2
    have hd := hm.move hlen
    cases hn
    exact ⟨rfl, hm.location, hd⟩
  · cases hn

/-- A fault has the place of the token that cannot be read, but for an escape that stands for
nothing, which has its own place. -/
theorem next_error {f : LexFault} (h : c.Counts bs k) (hn : c.next = .error f) :
    ((∀ b, f.problem ≠ .unknownEscape b) → f.location = bs.locate (k + c.tokenStart)) ∧
      ∀ b, f.problem = .unknownEscape b → f.location = bs.locate (k + f.reached) := by
  have hm := h.move (gap_le c.rest)
  unfold Cursor.next at hn
  dsimp only at hn
  split at hn
  · cases hn
  · next e he =>
    rcases Lexeme.inside_of_scan he with ⟨hin, hne⟩ | ⟨hin, ⟨b, hb⟩, hlen⟩
    · cases hn
      rw [if_neg (by rw [hin]; exact Bool.false_ne_true)]
      exact ⟨fun _ => hm.location, fun b hb => absurd hb (hne b)⟩
    · have hd := hm.move hlen
      cases hn
      rw [if_pos hin]
      exact ⟨fun hne => absurd hb (hne b), fun _ _ => hd.location⟩

/-- All tokens that come have their places, and the cursor behind them goes on counting. -/
theorem reads (h : c.Counts bs k) (hr : c.Reads τ d) :
    (∀ t ∈ τ, t.location = bs.locate (k + t.start)) ∧ d.Counts bs k := by
  induction hr with
  | nil => exact ⟨List.forall_mem_nil _, h⟩
  | cons hn _ _ ih =>
    obtain ⟨-, ht, hd⟩ := h.next hn
    obtain ⟨hτ, he⟩ := ih hd
    exact ⟨List.forall_mem_cons.mpr ⟨ht, hτ⟩, he⟩

end Counts

/-- The cursor at an offset of a text counts places there. -/
theorem counts_ofText (bs : Bytes) (k start stop : Nat) :
    (ofText (bs.drop k) start stop (bs.locate (k + start))).Counts bs k := by
  refine ⟨?_, rfl⟩
  show Bytes.window (bs.drop k) start stop <+: bs.drop (k + start)
  rw [← List.drop_drop]
  exact List.take_prefix _ _

end Cursor

/-! ## Templates -/

/-- **All places agree.**  A cursor that begins at an offset of a template, with the place
that the template gives that offset, gives every token the place that the template gives the
token's first byte, and so it does with a token that cannot be read; an escape that stands
for nothing has the place of its own offset.  If there is no directive line, the places are
those of the plain bytes, and a session makes of the template what it makes of the bytes. -/
theorem Template.locations_agree (path : String) (holding : Holding) (raw : Bytes) :
    let t := Template.ofRaw path holding raw
    (∀ offset stop τ d,
      (Cursor.ofText t.body offset stop (t.placed.locate offset)).Reads τ d →
        (∀ u ∈ τ, u.location = t.placed.locate u.start) ∧
        (∀ u e, d.next = .ok (u, e) → u.location = t.placed.locate u.start) ∧
        ∀ f, d.next = .error f →
          ((∀ b, f.problem ≠ .unknownEscape b) → f.location = t.placed.locate d.tokenStart) ∧
          ∀ b, f.problem = .unknownEscape b → f.location = t.placed.locate f.reached) ∧
      (∀ offset : Nat, t.place offset
        = ((t.placed.locate offset).line, ((t.placed.locate offset).column : Int))) ∧
      (¬ [35, 33] <+: raw → ∀ offset : Nat, t.placed.locate offset = raw.locate offset ∧
        ∀ s : Session, s.perform t.placed offset = s.perform (.ofBytes raw) offset) := by
  intro t
  have hlocate : ∀ offset, t.placed.locate offset = raw.locate (directiveEnd raw + offset) :=
    locate_placed_ofRaw path holding raw
  refine ⟨?_, ?_, ?_⟩
  · intro offset stop τ d hr
    rw [hlocate] at hr
    simp only [hlocate]
    obtain ⟨hτ, hd⟩ := (Cursor.counts_ofText raw (directiveEnd raw) offset stop).reads hr
    exact ⟨hτ, fun u e hn => (hd.next hn).2.1, fun f hn => hd.next_error hn⟩
  · intro offset
    rw [hlocate]
    exact place_eq_locate path holding raw offset
  · intro hbody offset
    have hend := directiveEnd_of_not_prefix hbody
    have hplain : t.placed = .ofBytes raw := by
      refine PlacedText.mk.injEq .. ▸ ⟨?_, funext fun offset => ?_⟩
      · show raw.drop (directiveEnd raw) = raw
        rw [hend, List.drop_zero]
      · show t.placed.locate offset = raw.locate offset
        rw [hlocate, hend, Nat.zero_add]
    rw [hplain]
    exact ⟨rfl, fun _ => rfl⟩

/-- A name on the line behind a directive line, and a byte that begins no token on the line
behind that; and the same without the directive line. -/
theorem Template.locations_agree_directive :
    let t := Template.ofRaw "t" .mapped [35, 33, 10, 120, 10, 63]
    let name : Token := ⟨.ident, "x", ⟨2, 1⟩, 0, 1⟩
    let newline : Token := ⟨.newline, "\n", ⟨2, 2⟩, 1, 2⟩
    let behind : Cursor := ⟨[63], 2, ⟨3, 1⟩⟩
    (Cursor.ofText t.body 0 3 (t.placed.locate 0)).Reads [name, newline] behind ∧
      behind.next = .error ⟨.unexpected 63, ⟨3, 1⟩, 2⟩ ∧
      t.placed.locate 0 = ⟨2, 1⟩ ∧ t.placed.locate 1 = ⟨2, 2⟩ ∧ t.placed.locate 2 = ⟨3, 1⟩ ∧
      ¬ [35, 33] <+: ([120, 10, 63] : Bytes) ∧
      (Session.start "t").perform (Template.ofRaw "t" .read [120, 10, 63]).placed 0
        = (Session.start "t").perform (.ofBytes [120, 10, 63]) 0 := by
  intro t name newline behind
  have hreads : (Cursor.ofText t.body 0 3 (t.placed.locate 0)).Reads [name, newline] behind :=
    .cons (d := ⟨[10, 63], 1, ⟨2, 2⟩⟩) (by decide +kernel) (by decide)
      (.cons (by decide +kernel) (by decide) .nil)
  have hfault : behind.next = .error ⟨.unexpected 63, ⟨3, 1⟩, 2⟩ := by decide +kernel
  have hbody : ¬ [35, 33] <+: ([120, 10, 63] : Bytes) := by decide
  obtain ⟨hplaces, -, -⟩ := locations_agree "t" .mapped [35, 33, 10, 120, 10, 63]
  obtain ⟨-, -, hplain⟩ := locations_agree "t" .read [120, 10, 63]
  obtain ⟨hτ, -, hf⟩ := hplaces 0 3 _ _ hreads
  exact ⟨hreads, hfault, (hτ name List.mem_cons_self).symm,
    (hτ newline (List.mem_cons_of_mem _ List.mem_cons_self)).symm,
    ((hf _ hfault).1 nofun).symm, hbody, (hplain hbody 0).2 _⟩

end SpanScript
