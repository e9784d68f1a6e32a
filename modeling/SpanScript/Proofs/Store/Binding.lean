import SpanScript.Proofs.Session.Apart

/-!
# What an assignment binds

An assignment that is accepted binds its name in one scope: in the innermost one on the
chain that has the name, or in the current one if none has it.  The name then stands for the
value that was assigned, on the same chain.

* `Store.target`: the scope, and `assignScope_eq_target`: that an assignment takes it.
* `assignScope_of_bound`, `assignScope_of_unbound`: what is accepted.
* `get?_put_target`: what the name then stands for.
-/

namespace SpanScript.Store

variable {s : Store} {chain : Chain} {x : String} {v old : Value} {declared : Option TypeName}

/-- The scope that an assignment to a name binds it in: the innermost one that has the name,
or else the current one. -/
def target (s : Store) (chain : Chain) (x : String) : Nat :=
  (s.scopeOf? chain x).getD (chain.headD 0)

/-! ## Names that are bound -/

theorem scopeOf?_of_get? (h : s.get? chain x = some v) :
    s.scopeOf? chain x = some (s.target chain x) ∧
      (s.scope (s.target chain x)).lookup x = some v := by
  obtain ⟨id, hid, hv⟩ := Option.bind_eq_some_iff.mp h
  rw [target, hid]
  exact ⟨rfl, hv⟩

theorem scopeOf?_of_get?_none (h : s.get? chain x = none) : s.scopeOf? chain x = none := by
  cases hid : s.scopeOf? chain x with
  | none => rfl
  | some id =>
    have hbinds := binds_of_scopeOf? hid
    obtain ⟨w, hw⟩ := Option.isSome_iff_exists.mp hbinds
    rw [get?, hid, Option.bind_some, hw] at h
    cases h

theorem lt_size_of_binds {id : Nat} (h : (s.scope id).binds x = true) : id < s.scopes.size := by
  refine Nat.lt_of_not_le fun hle => ?_
  rw [scope, Array.getElem?_eq_none hle] at h
  cases h

/-- The scope is there. -/
theorem target_lt (hc : Chain.Held s chain) : s.target chain x < s.scopes.size := by
  rw [target]
  cases hid : s.scopeOf? chain x with
  | some id => exact lt_size_of_binds (binds_of_scopeOf? hid)
  | none =>
    obtain ⟨first, rest, rfl⟩ := List.exists_cons_of_ne_nil hc.1
    exact hc.2 first (List.mem_cons_self ..)

theorem target_lt_of_get? (h : s.get? chain x = some v) : s.target chain x < s.scopes.size :=
  lt_size_of_binds (binds_of_scopeOf? (scopeOf?_of_get? h).1)

/-! ## What is accepted -/

/-- An assignment that is accepted binds its name in that scope. -/
theorem assignScope_eq_target {id : Nat} (h : s.assignScope chain x v declared = .ok id) :
    id = s.target chain x := by
  unfold assignScope at h
  split at h
  · next hid _ =>
    rw [target, hid]
    split at h
    · cases h
    · split at h <;> cases h
      rfl
  · next hnot =>
    have hnone : s.scopeOf? chain x = none := by
      refine scopeOf?_of_get?_none (Option.eq_none_iff_forall_ne_some.mpr fun w hw => ?_)
      exact hnot _ _ (scopeOf?_of_get? hw).1 hw
    rw [target, hnone]
    split at h
    · cases h
    · split at h <;> cases h
      rfl

/-- A name that is bound takes a value of its kind, declared anew or not. -/
theorem assignScope_of_bound (h : s.get? chain x = some old) (hk : v.kind = old.kind)
    (hd : ∀ type ∈ declared, type = old.kind.name) :
    s.assignScope chain x v declared = .ok (s.target chain x) := by
  have hany : ¬ declared.any (· != old.kind.name) = true := by
    cases declared with
    | none => exact Bool.false_ne_true
    | some type => simp [hd type rfl]
  unfold assignScope
  rw [(scopeOf?_of_get? h).1, h]
  dsimp only
  rw [if_neg hany, if_neg (not_not_intro hk)]

/-- A name that is not bound takes a value of the type that is declared. -/
theorem assignScope_of_unbound (h : s.get? chain x = none) :
    s.assignScope chain x v (some v.kind.name) = .ok (s.target chain x) := by
  unfold assignScope
  rw [target, scopeOf?_of_get?_none h, h]
  exact if_neg (not_not_intro rfl)

/-! ## What a name stands for -/

/-- A name that a scope has is found where it was, whatever else is put there. -/
theorem scopeOf?_put {id : Nat} (h : s.scopeOf? chain x = some id) (v : Value) :
    (s.put id x v).scopeOf? chain x = some id := by
  have hbinds : (fun id' => ((s.put id x v).scope id').binds x)
      = fun id' => (s.scope id').binds x := by
    funext id'
    by_cases hid : id = id'
    · subst hid
      have hlt := lt_size_of_binds (binds_of_scopeOf? h)
      rw [scope_put_self s hlt, Scope.binds, Scope.lookup_put, if_pos rfl, binds_of_scopeOf? h]
      rfl
    · rw [scope_put_of_ne s hid]
  rw [scopeOf?, hbinds]
  exact h

/-- **A name stands for what is put into its scope.** -/
theorem get?_put_target (hc : chain ≠ []) (hlt : s.target chain x < s.scopes.size) (v : Value) :
    (s.put (s.target chain x) x v).get? chain x = some v := by
  have hlookup : ((s.put (s.target chain x) x v).scope (s.target chain x)).lookup x = some v := by
    rw [scope_put_self s hlt, Scope.lookup_put, if_pos rfl]
  cases hid : s.scopeOf? chain x with
  | some id =>
    have htarget : s.target chain x = id := by rw [target, hid]; rfl
    rw [htarget] at hlookup ⊢
    rw [get?, scopeOf?_put hid, Option.bind_some, hlookup]
  | none =>
    obtain ⟨first, rest, rfl⟩ := List.exists_cons_of_ne_nil hc
    have htarget : s.target (first :: rest) x = first := by rw [target, hid]; rfl
    rw [htarget] at hlookup ⊢
    have hbinds : ((s.put first x v).scope first).binds x = true := by
      rw [Scope.binds, hlookup]
      rfl
    rw [get?, scopeOf?,
      List.find?_cons_of_pos (p := fun id => ((s.put first x v).scope id).binds x) hbinds]
    exact hlookup

end SpanScript.Store
