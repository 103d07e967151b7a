import IndexNotation.Proofs.Expression.Leaf
import IndexNotation.Proofs.Expression.Session

namespace IndexNotation

variable {α : Type}

def Expression.Extends (e : Expression α) (operands : List (Expression α))
    (fresh : Option (CacheNode α)) : Prop :=
  ∀ node ∈ e.cacheNodes, some node = fresh ∨ ∃ o ∈ operands, node ∈ o.cacheNodes

/-- The operands' nodes are those of `e`, or all but one of them, which has the next cache. -/
structure Expression.Grows (e : Expression α) (operands : List (Expression α))
    (before after : Nat) : Prop where
  size : before ≤ after
  nodes : ∃ fresh : Option (CacheNode α), e.Extends operands fresh ∧
    ∀ node, fresh = some node → node.cache = before ∧ node.cache < after

namespace Expression.Grows

theorem of_subset {e : Expression α} {operands : List (Expression α)}
    (inside : ∀ node ∈ e.cacheNodes, ∃ o ∈ operands, node ∈ o.cacheNodes) (size : Nat) :
    e.Grows operands size size := by
  refine ⟨Nat.le_refl _, none, ?_, ?_⟩
  · intro node present
    exact Or.inr (inside node present)
  · intro node absent
    cases absent

theorem one {e operand : Expression α} (nodes : e.cacheNodes = operand.cacheNodes) (size : Nat) :
    e.Grows [operand] size size := by
  apply of_subset
  intro node present
  rw [nodes] at present
  exact ⟨operand, List.mem_cons_self, present⟩

theorem both {e left right : Expression α}
    (nodes : e.cacheNodes = left.cacheNodes ++ right.cacheNodes) (size : Nat) :
    e.Grows [left, right] size size := by
  apply of_subset
  intro node present
  rw [nodes] at present
  rcases List.mem_append.mp present with onLeft | onRight
  · exact ⟨left, List.mem_cons_self, onLeft⟩
  · exact ⟨right, List.mem_cons_of_mem _ List.mem_cons_self, onRight⟩

end Expression.Grows

theorem Call.run_grows {c : Call α} {e : Expression α} {store later : Store α}
    (accepted : c.run store = (.ok e, later)) :
    e.Grows c.operands store.scratch.caches.size later.scratch.caches.size := by
  cases c with
  | index tensor symbols =>
      obtain ⟨made, rfl⟩ := StoreM.ofExcept_run_eq_ok accepted
      apply Expression.Grows.of_subset
      intro node present
      rw [Expression.cacheNodes_index made] at present
      cases present
  | mul left right =>
      obtain ⟨made, rfl⟩ := StoreM.ofExcept_run_eq_ok accepted
      obtain ⟨_, _, _, _, rfl⟩ := Expression.mul_eq_ok_iff.mp made
      apply Expression.Grows.both
      rfl
  | add left right =>
      obtain ⟨made, rfl⟩ := StoreM.ofExcept_run_eq_ok accepted
      obtain ⟨_, _, rfl⟩ := Expression.combine_eq_ok_iff.mp made
      apply Expression.Grows.both
      rfl
  | sub left right =>
      obtain ⟨made, rfl⟩ := StoreM.ofExcept_run_eq_ok accepted
      obtain ⟨_, _, rfl⟩ := Expression.combine_eq_ok_iff.mp made
      apply Expression.Grows.both
      rfl
  | scaledBy operand x =>
      cases accepted
      apply Expression.Grows.one
      rfl
  | dividedBy operand x =>
      cases accepted
      apply Expression.Grows.one
      rfl
  | negate operand =>
      cases accepted
      apply Expression.Grows.one
      rfl
  | bundle operand symbols target result =>
      obtain ⟨made, rfl⟩ := StoreM.ofExcept_run_eq_ok accepted
      obtain ⟨_, _, _, _, _, _, _, _, _, _, rfl⟩ := Expression.bundle_eq_ok_iff.mp made
      apply Expression.Grows.one
      rfl
  | splitAt operand source symbols =>
      obtain ⟨made, rfl⟩ := StoreM.ofExcept_run_eq_ok accepted
      obtain ⟨_, _, _, _, _, _, _, _, _, _, rfl⟩ := Expression.splitAt_eq_ok_iff.mp made
      apply Expression.Grows.one
      rfl
  | reindex operand source target =>
      obtain ⟨next, renamed, rfl⟩ := Expression.reindex_eq_ok accepted
      obtain ⟨_, _, _, _, _, _, rfl⟩ := Expression.rename_eq_ok_iff.mp renamed
      apply Expression.Grows.one
      rfl
  | eval operand =>
      obtain ⟨dims, _, rfl, rfl⟩ := Expression.eval_eq_ok accepted
      refine ⟨by simp, some ⟨operand, store.scratch.caches.size, dims⟩, ?_, ?_⟩
      · intro node present
        rcases List.mem_cons.mp present with same | inside
        · exact Or.inl (congrArg some same)
        · exact Or.inr ⟨operand, List.mem_cons_self, inside⟩
      · intro node same
        cases same
        exact ⟨rfl, by simp⟩

namespace Session

/-- The caches of the expressions made have been handed out, each to one node. -/
structure CachesKnown (session : Session α) : Prop where
  known : ∀ node ∈ session.made.flatMap Expression.cacheNodes,
    node.cache < session.store.scratch.caches.size
  apart : CachesApart session.made

theorem Step.cachesKnown {session next : Session α} (step : Step session next)
    (known : session.CachesKnown) : next.CachesKnown := by
  cases step with
  | elsewhere grown =>
      exact ⟨fun node present => Nat.lt_of_lt_of_le (known.known node present) grown.caches,
        known.apart⟩
  | @call e _ c operands written accepted =>
      obtain ⟨grown, fresh, extends_, new⟩ := Call.run_grows accepted
      have origin : ∀ node ∈ (e :: session.made).flatMap Expression.cacheNodes,
          some node = fresh ∨ node ∈ session.made.flatMap Expression.cacheNodes := by
        intro node present
        rw [List.flatMap_cons] at present
        rcases List.mem_append.mp present with here | earlier
        · refine (extends_ node here).imp_right fun ⟨o, given, inside⟩ => ?_
          exact List.mem_flatMap.mpr ⟨o, operands o given, inside⟩
        · exact Or.inr earlier
      constructor
      · intro node present
        rcases origin node present with added | earlier
        · exact (new node added.symm).2
        · exact Nat.lt_of_lt_of_le (known.known node earlier) grown
      · intro node present other also same
        rcases origin node present with added | earlier
        · rcases origin other also with added' | earlier'
          · exact Option.some.inj (added.trans added'.symm)
          · have old := known.known other earlier'
            have next := (new node added.symm).1
            omega
        · rcases origin other also with added' | earlier'
          · have old := known.known node earlier
            have next := (new other added'.symm).1
            omega
          · exact known.apart node earlier other earlier' same

/-- No two nodes of the expressions made in a session share a cache. -/
theorem cachesApart_of_steps {store : Store α} {session : Session α}
    (steps : Relation.ReflTransGen Step ⟨store, []⟩ session) : CachesApart session.made := by
  have known : session.CachesKnown := by
    induction steps with
    | refl =>
        constructor
        · intro node present
          cases present
        · intro node present
          cases present
    | tail _ step ih => exact step.cachesKnown ih
  exact known.apart

end Session

end IndexNotation
