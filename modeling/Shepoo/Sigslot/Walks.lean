import Shepoo.Sigslot.Signals

/-! What the loops over connections and over senders come to when all that they use is there. -/
namespace Shepoo.Sigslot
open Foundation BoundedLoop

variable {μ : Type}

namespace Heap

def targets (h : Heap μ) (s : Nat) : Option (List (Nat × μ)) :=
  (h.signals s).map fun slots => slots.map Connection.target

def nodes (fresh : Nat) : List (Nat × μ) → List (Connection μ)
  | [] => []
  | (o,f)::rest => ⟨fresh,o,f⟩::nodes (fresh+1) rest

theorem nodes_append (fresh : Nat) (new new' : List (Nat × μ)) :
    nodes fresh (new ++ new') = nodes fresh new ++ nodes (fresh+new.length) new' := by
  induction new generalizing fresh with
  | nil => rfl
  | cons t rest ih =>
    rw [List.cons_append,nodes,ih,nodes,List.length_cons,Nat.add_right_comm,Nat.add_assoc,
      List.cons_append]

@[simp] theorem map_nodes (fresh : Nat) (new : List (Nat × μ)) :
    (nodes fresh new).map Connection.target = new := by
  induction new generalizing fresh with
  | nil => rfl
  | cons t rest ih => rw [nodes,List.map_cons,ih,Connection.target]

/-- What a copy of an object has called for it. -/
def duplicates (old new : Nat) (targets : List (Nat × μ)) : List (Nat × μ) :=
  (targets.filter fun t => t.1 = old).map fun t => (new,t.2)

theorem duplicates_of_ne {old new : Nat} {targets : List (Nat × μ)}
    (h : ∀ t ∈ targets, t.1 ≠ old) : duplicates old new targets = [] := by
  rw [duplicates,List.filter_eq_nil_iff.mpr (by simpa using h),List.map_nil]

private theorem reaches_duplicates (old new : Nat) (before rest behind : List (Connection μ))
    (fresh : Nat) :
    Reaches Duplication.guard (Duplication.body old new)
      ⟨before.length,before ++ rest ++ behind,fresh⟩
      ⟨(before ++ rest).length,
        before ++ rest ++ behind ++
          nodes fresh (duplicates old new (rest.map Connection.target)),
        fresh+(duplicates old new (rest.map Connection.target)).length⟩ := by
  induction rest generalizing before behind fresh with
  | nil =>
    simp only [List.append_nil,List.map_nil,duplicates,List.filter_nil,nodes,List.length_nil]
    exact .refl
  | cons c rest ih =>
    have hnext : (before ++ c::rest ++ behind)[before.length]? = some c := by simp
    have hguard : Duplication.guard ⟨before.length,before ++ c::rest ++ behind,fresh⟩ = true := by
      simp [Duplication.guard]
    by_cases hc : c.pobject = old
    · have hstep : Step Duplication.guard (Duplication.body old new)
          ⟨before.length,before ++ c::rest ++ behind,fresh⟩
          ⟨(before ++ [c]).length,
            (before ++ [c]) ++ rest ++ (behind ++ [⟨fresh,new,c.pmemfun⟩]),fresh+1⟩ := by
        refine ⟨hguard,?_⟩
        simp [Duplication.body,hc]
      have hrest := ih (before ++ [c]) (behind ++ [⟨fresh,new,c.pmemfun⟩]) (fresh+1)
      refine .head hstep ?_
      convert hrest using 1
      simp only [List.map_cons,duplicates,Connection.target,hc,decide_true,List.filter_cons_of_pos,
        nodes,List.length_cons,List.append_assoc,List.cons_append,
        List.nil_append,Duplication.mk.injEq,true_and]
      omega
    · have hstep : Step Duplication.guard (Duplication.body old new)
          ⟨before.length,before ++ c::rest ++ behind,fresh⟩
          ⟨(before ++ [c]).length,(before ++ [c]) ++ rest ++ behind,fresh⟩ := by
        refine ⟨hguard,?_⟩
        simp [Duplication.body,hc]
      have hrest := ih (before ++ [c]) behind fresh
      refine .head hstep ?_
      convert hrest using 1
      simp [duplicates,Connection.target,hc]

/-- The copies come into the loop too, and are not copied. -/
theorem slotDuplicate_done {s old new : Nat} (hne : new ≠ old) {h : Heap μ}
    {slots : List (Connection μ)} (hs : h.signals s = some slots) :
    ∃ cost, ∀ fuel, cost ≤ fuel → h.slotDuplicate fuel s old new =
      .done { h.setSignal s (some (slots ++ nodes h.fresh
          (duplicates old new (slots.map Connection.target)))) with
        fresh := h.fresh+
          (duplicates old new (slots.map Connection.target)).length } := by
  have hfirst := reaches_duplicates old new [] slots [] h.fresh
  have hsecond := reaches_duplicates old new slots (nodes h.fresh
    (duplicates old new (slots.map Connection.target))) []
    (h.fresh+(duplicates old new (slots.map Connection.target)).length)
  have hnone : duplicates old new (duplicates old new
      (slots.map Connection.target)) = [] := by
    apply duplicates_of_ne
    intro t ht
    obtain ⟨u,-,rfl⟩ := List.mem_map.mp ht
    exact hne
  rw [map_nodes,hnone] at hsecond
  simp only [List.nil_append,List.append_nil,List.length_nil,nodes,Nat.add_zero]
    at hfirst hsecond
  obtain ⟨cost,hcost⟩ := done_of_reaches (hfirst.trans hsecond) (by simp [Duplication.guard])
  refine ⟨cost,fun fuel hf => ?_⟩
  rw [slotDuplicate,hs]
  simp only [hcost fuel hf,Progress.bind_done,Progress.pure_eq]

theorem targets_setSignal (s : Nat) (slots : Option (List (Connection μ))) (h : Heap μ) :
    (h.setSignal s slots).targets =
      Function.update h.targets s (slots.map fun slots => slots.map Connection.target) := by
  funext t
  by_cases ht : t = s
  · subst ht
    simp only [targets,setSignal,Function.update_self]
  · simp only [targets,setSignal,Function.update_of_ne ht]

section Loops

/-- What is there stays there when something is set. -/
private theorem isSome_update {β : Type} {f : Nat → Option β} {x : Nat} (h : (f x).isSome)
    (a : Nat) (b : β) : (Function.update f a (some b) x).isSome := by
  by_cases hx : x = a
  · subst hx
    rw [Function.update_self]
    rfl
  · rwa [Function.update_of_ne hx]

/-- The loop of `disconnect_all` over the connections of a signal. -/
theorem foldlM_signalDisconnect (s : Nat) {slots : List (Connection μ)} {h : Heap μ}
    (hl : ∀ c ∈ slots, (h.objects c.pobject).isSome) :
    slots.foldlM (fun h c => h.signalDisconnect s c.pobject) h =
      .done { h with objects := fun o => (h.objects o).map fun senders =>
        if o ∈ slots.map Connection.pobject then senders.erase s else senders } := by
  induction slots generalizing h with
  | nil =>
    simp only [List.foldlM_nil,Progress.pure_eq,List.map_nil,List.not_mem_nil,if_false,
      Option.map_id']
  | cons c rest ih =>
    obtain ⟨senders,ho⟩ := Option.isSome_iff_exists.mp (hl c List.mem_cons_self)
    have hstep : h.signalDisconnect s c.pobject =
        .done (h.setObject c.pobject (some (senders.erase s))) := by
      rw [signalDisconnect,ho]
    rw [List.foldlM_cons,hstep,Progress.bind_done,ih]
    · refine congrArg Progress.done ((Heap.mk.injEq ..).mpr ⟨rfl,?_,rfl⟩)
      funext o
      by_cases hoc : o = c.pobject
      · subst hoc
        simp [setObject,ho]
      · simp [setObject,hoc]
    · intro d hd
      exact isSome_update (hl d (List.mem_cons_of_mem c hd)) ..

/-- The loop of `disconnect_all` over the signals that call an object. -/
theorem foldlM_slotDisconnect (o : Nat) {senders : List Nat} {h : Heap μ}
    (hl : ∀ s ∈ senders, (h.signals s).isSome) :
    senders.foldlM (fun h s => h.slotDisconnect s o) h =
      .done { h with signals := fun s => (h.signals s).map fun slots =>
        if s ∈ senders then slots.filter fun c => c.pobject ≠ o else slots } := by
  induction senders generalizing h with
  | nil =>
    simp only [List.foldlM_nil,Progress.pure_eq,List.not_mem_nil,if_false,Option.map_id']
  | cons s rest ih =>
    obtain ⟨slots,hs⟩ := Option.isSome_iff_exists.mp (hl s List.mem_cons_self)
    have hstep : h.slotDisconnect s o =
        .done (h.setSignal s (some (slots.filter fun c => c.pobject ≠ o))) := by
      rw [slotDisconnect,hs]
    rw [List.foldlM_cons,hstep,Progress.bind_done,ih]
    · refine congrArg Progress.done ((Heap.mk.injEq ..).mpr ⟨?_,rfl,rfl⟩)
      funext t
      by_cases hts : t = s
      · subst hts
        simp [setSignal,hs]
      · simp [setSignal,hts]
    · intro t ht
      exact isSome_update (hl t (List.mem_cons_of_mem s ht)) ..

/-- The loop of a signal's copy constructor, some way into it. -/
theorem foldlM_clone (s' : Nat) {slots : List (Connection μ)} {h : Heap μ}
    {copied : List (Connection μ)} (hs : h.signals s' = some copied)
    (hl : ∀ c ∈ slots, (h.objects c.pobject).isSome) :
    slots.foldlM (fun h c => do
        let h ← h.signalConnect s' c.pobject
        h.pushBack s' c.pobject c.pmemfun) h =
      .done ⟨Function.update h.signals s'
          (some (copied ++ nodes h.fresh (slots.map Connection.target))),
        fun o => (h.objects o).map fun senders =>
          if o ∈ slots.map Connection.pobject then insert s' senders else senders,
        h.fresh+slots.length⟩ := by
  induction slots generalizing h copied with
  | nil =>
    have hsame : Function.update h.signals s' (some copied) = h.signals := by
      rw [← hs,Function.update_eq_self]
    simp only [List.foldlM_nil,Progress.pure_eq,List.map_nil,List.not_mem_nil,if_false,
      Option.map_id',nodes,List.append_nil,hsame,List.length_nil,Nat.add_zero]
  | cons c rest ih =>
    obtain ⟨senders,ho⟩ := Option.isSome_iff_exists.mp (hl c List.mem_cons_self)
    have hconnect : h.signalConnect s' c.pobject =
        .done (h.setObject c.pobject (some (insert s' senders))) := by
      rw [signalConnect,ho]
    have hpush : (h.setObject c.pobject (some (insert s' senders))).pushBack s' c.pobject
        c.pmemfun = .done ⟨Function.update h.signals s'
          (some (copied ++ [⟨h.fresh,c.pobject,c.pmemfun⟩])),
          Function.update h.objects c.pobject (some (insert s' senders)),h.fresh+1⟩ := by
      rw [pushBack,setObject]
      simp only [hs]
      rfl
    rw [List.foldlM_cons,hconnect,Progress.bind_done,hpush,Progress.bind_done,
      ih (Function.update_self ..)]
    · refine congrArg Progress.done ((Heap.mk.injEq ..).mpr ⟨?_,?_,?_⟩)
      · simp [Connection.target,nodes]
      · funext o
        by_cases hoc : o = c.pobject
        · subst hoc
          simp [ho]
        · simp [hoc]
      · rw [List.length_cons,Nat.add_assoc,Nat.add_comm 1]
    · intro d hd
      exact isSome_update (hl d (List.mem_cons_of_mem c hd)) ..

/-- The loop of an object's copy constructor, some way into it. -/
theorem foldlM_duplicate {o o' : Nat} (hne : o' ≠ o) {senders : List Nat} (hn : senders.Nodup)
    {h : Heap μ} (hl : ∀ s ∈ senders, (h.signals s).isSome) {known : Finset Nat}
    (ho : h.objects o' = some known) :
    ∃ cost h', (∀ fuel, cost ≤ fuel → senders.foldlM (fun h s => do
        let h ← h.slotDuplicate fuel s o o'
        h.signalConnect s o') h = .done h') ∧
      h'.targets = (fun s => (h.targets s).map fun targets =>
        if s ∈ senders then targets ++ duplicates o o' targets else targets) ∧
      h'.objects = Function.update h.objects o' (some (known ∪ senders.toFinset)) := by
  induction senders generalizing h known with
  | nil =>
    refine ⟨0,h,fun _ _ => rfl,?_,?_⟩
    · simp only [List.not_mem_nil,if_false,Option.map_id']
    · rw [List.toFinset_nil,Finset.union_empty,← ho,Function.update_eq_self]
  | cons s rest ih =>
    obtain ⟨hnew,hn⟩ := List.nodup_cons.mp hn
    obtain ⟨slots,hs⟩ := Option.isSome_iff_exists.mp (hl s List.mem_cons_self)
    obtain ⟨cost,hcost⟩ := slotDuplicate_done hne hs
    obtain ⟨next,hnext⟩ : ∃ next : Heap μ, next =
        ⟨Function.update h.signals s (some (slots ++ nodes h.fresh
          (duplicates o o' (slots.map Connection.target)))),
        Function.update h.objects o' (some (insert s known)),
        h.fresh+(duplicates o o' (slots.map Connection.target)).length⟩ := ⟨_,rfl⟩
    have hturn : ∀ fuel, cost ≤ fuel → (h.slotDuplicate fuel s o o' >>= fun h =>
        h.signalConnect s o') = .done next := by
      intro fuel hf
      rw [hcost fuel hf,Progress.bind_done,signalConnect,hnext]
      simp only [setSignal,ho]
      rfl
    have hsignals : ∀ t ∈ rest, (next.signals t).isSome := by
      intro t ht
      rw [hnext]
      exact isSome_update (hl t (List.mem_cons_of_mem s ht)) ..
    have hobject : next.objects o' = some (insert s known) := by
      rw [hnext]
      exact Function.update_self ..
    obtain ⟨cost',h',hdone,htargets,hobjects⟩ := ih hn hsignals hobject
    refine ⟨max cost cost',h',fun fuel hf => ?_,?_,?_⟩
    · rw [List.foldlM_cons,hturn fuel ((le_max_left _ _).trans hf),Progress.bind_done]
      exact hdone fuel ((le_max_right _ _).trans hf)
    · rw [htargets,hnext]
      funext t
      by_cases hts : t = s
      · subst hts
        simp [targets,hs,hnew]
      · simp [targets,hts]
    · rw [hobjects,hnext,Function.update_idem,List.toFinset_cons,Finset.union_insert,
        Finset.insert_union]

end Loops

end Heap
end Shepoo.Sigslot
