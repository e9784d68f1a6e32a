import SpanScript.Template
import SpanScript.Proofs.Bytes.Search

/-!
# The logical bytes of a template

What a render reads of a template that has just been opened: the bytes behind the
directive line, with their places in the whole file.

* `body_append`: bytes that are added behind a template come behind its logical bytes.
* `locate_append`: and the places before them stay what they are.
-/

namespace SpanScript

theorem directiveEnd_le (raw : Bytes) : directiveEnd raw ≤ raw.length := by
  unfold directiveEnd
  split
  · split
    · next n hn =>
      obtain ⟨-, h, -⟩ := Bytes.findFrom_eq_some hn
      have := Bytes.add_length_le_of_prefix (by decide) h
      exact this
    · exact Nat.le_refl _
  · exact Nat.zero_le _

namespace Template

theorem text_placed (t : Template) : t.placed.text = t.body := rfl

theorem body_ofRaw (path : String) (holding : Holding) (raw : Bytes) :
    (ofRaw path holding raw).body = raw.drop (directiveEnd raw) := rfl

theorem length_body_ofRaw (path : String) (holding : Holding) (raw : Bytes) :
    (ofRaw path holding raw).body.length + directiveEnd raw = raw.length := by
  rw [body_ofRaw, List.length_drop]
  have := directiveEnd_le raw
  omega

theorem body_append (path path' : String) (holding holding' : Holding) {raw bs : Bytes}
    (h : directiveEnd (raw ++ bs) = directiveEnd raw) :
    (ofRaw path holding (raw ++ bs)).body = (ofRaw path' holding' raw).body ++ bs := by
  rw [body_ofRaw, body_ofRaw, h, List.drop_append_of_le_length (directiveEnd_le raw)]

theorem newlineOffsets_append : ∀ (raw bs : Bytes) (n : Nat),
    newlineOffsets n (raw ++ bs) = newlineOffsets n raw ++ newlineOffsets (n + raw.length) bs := by
  intro raw bs
  induction raw with
  | nil => exact fun _ => rfl
  | cons b raw ih =>
    intro n
    rw [List.cons_append, newlineOffsets, newlineOffsets, ih, List.length_cons, Nat.add_right_comm,
      Nat.add_assoc n raw.length 1]
    split <;> rfl

theorem le_newlineOffsets : ∀ (bs : Bytes) (n k : Nat), k ∈ newlineOffsets n bs → n ≤ k := by
  intro bs
  induction bs with
  | nil => intro n k h; cases h
  | cons b bs ih =>
    intro n k h
    rw [newlineOffsets] at h
    split at h
    · rcases List.mem_cons.mp h with rfl | h
      · exact Nat.le_refl _
      · exact Nat.le_of_succ_le (ih _ _ h)
    · exact Nat.le_of_succ_le (ih _ _ h)

/-- The newlines before a place in the first part. -/
theorem takeWhile_newlineOffsets_append {raw bs : Bytes} {place : Int} (h : place ≤ raw.length) :
    (newlineOffsets 0 (raw ++ bs)).takeWhile (fun (n : Nat) => decide ((n : Int) < place))
      = (newlineOffsets 0 raw).takeWhile fun (n : Nat) => decide ((n : Int) < place) := by
  have hnil : (newlineOffsets (0 + raw.length) bs).takeWhile
      (fun (n : Nat) => decide ((n : Int) < place)) = [] := by
    cases hk : newlineOffsets (0 + raw.length) bs with
    | nil => rfl
    | cons k ks =>
      have := le_newlineOffsets bs _ k (hk ▸ List.mem_cons_self)
      rw [List.takeWhile_cons_of_neg]
      rw [decide_eq_true_eq]
      omega
  rw [newlineOffsets_append, List.takeWhile_append, hnil, List.append_nil]
  split
  · next hlen => exact ((List.takeWhile_prefix _).eq_of_length hlen).symm
  · rfl

theorem locate_append (path path' : String) (holding holding' : Holding) {raw bs : Bytes}
    (h : directiveEnd (raw ++ bs) = directiveEnd raw) {offset : Nat}
    (ho : offset ≤ (ofRaw path' holding' raw).body.length) :
    (ofRaw path holding (raw ++ bs)).placed.locate offset
      = (ofRaw path' holding' raw).placed.locate offset := by
  have hlen := length_body_ofRaw path' holding' raw
  have hplace : ((directiveEnd raw : Nat) : Int) + offset ≤ raw.length := by omega
  simp only [placed, indexed, place, ofRaw, h, Option.getD_none, Option.getD_some,
    takeWhile_newlineOffsets_append hplace]
  rfl

end Template

end SpanScript
