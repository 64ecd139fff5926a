import Shepoo.Sigslot.Walks

/-! Signals and objects that know each other. As long as they agree, every action finds what
it uses, and they agree again when it is done. -/
namespace Shepoo.Sigslot
open Foundation BoundedLoop

variable {μ : Type}

namespace Heap

def receivers (h : Heap μ) (s : Nat) : List Nat := ((h.targets s).getD []).map Prod.fst

def senders (h : Heap μ) (o : Nat) : Finset Nat := (h.objects o).getD ∅

/-- Signals and objects agree on who is connected. -/
def Linked (h : Heap μ) : Prop := ∀ s o, o ∈ h.receivers s ↔ s ∈ h.senders o

theorem receivers_of_some {h : Heap μ} {s : Nat} {slots : List (Connection μ)}
    (hs : h.signals s = some slots) : h.receivers s = slots.map Connection.pobject := by
  rw [receivers,targets,hs,Option.map_some,Option.getD_some,List.map_map]
  rfl

theorem signal_of_receiver {h : Heap μ} {s o : Nat} (ho : o ∈ h.receivers s) :
    ∃ slots, h.signals s = some slots := by
  cases hs : h.signals s with
  | none =>
    rw [receivers,targets,hs] at ho
    cases ho
  | some slots => exact ⟨slots,rfl⟩

theorem object_of_sender {h : Heap μ} {s o : Nat} (hs : s ∈ h.senders o) :
    ∃ senders, h.objects o = some senders ∧ s ∈ senders := by
  unfold senders at hs
  cases ho : h.objects o with
  | none =>
    rw [ho] at hs
    cases hs
  | some senders =>
    rw [ho] at hs
    exact ⟨senders,rfl,hs⟩

theorem Linked.object {h : Heap μ} (hl : h.Linked) {s : Nat} {slots : List (Connection μ)}
    (hs : h.signals s = some slots) {c : Connection μ} (hc : c ∈ slots) :
    (h.objects c.pobject).isSome := by
  have hm : c.pobject ∈ h.receivers s := by
    rw [receivers_of_some hs]
    exact List.mem_map_of_mem hc
  obtain ⟨senders,ho,-⟩ := object_of_sender ((hl s c.pobject).mp hm)
  rw [ho]
  rfl

theorem Linked.signal {h : Heap μ} (hl : h.Linked) {o s : Nat} {senders : Finset Nat}
    (ho : h.objects o = some senders) (hs : s ∈ senders) : (h.signals s).isSome := by
  have hm : s ∈ h.senders o := by
    rw [Heap.senders,ho]
    exact hs
  obtain ⟨slots,hslots⟩ := signal_of_receiver ((hl s o).mpr hm)
  rw [hslots]
  rfl

def Leads (action : Action μ) (h : Heap μ) (targets : Nat → Option (List (Nat × μ)))
    (objects : Nat → Option (Finset Nat)) : Prop :=
  ∃ cost h', (∀ fuel, cost ≤ fuel → action.perform fuel h = .done h') ∧
    h'.targets = targets ∧ h'.objects = objects

section Leads
variable {h : Heap μ} {s o : Nat}

theorem leads_connect {slots : List (Connection μ)} {senders : Finset Nat}
    (hs : h.signals s = some slots) (ho : h.objects o = some senders) (f : μ) :
    Leads (.connect s o f) h
      (Function.update h.targets s (some (slots.map Connection.target ++ [(o,f)])))
      (Function.update h.objects o (some (insert s senders))) := by
  refine ⟨0,⟨Function.update h.signals s (some (slots ++ [⟨h.fresh,o,f⟩])),
    Function.update h.objects o (some (insert s senders)),h.fresh+1⟩,fun fuel _ => ?_,?_,rfl⟩
  · rw [Action.perform,connect,pushBack,hs]
    simp only [Progress.bind_done,signalConnect,setSignal,ho]
    rfl
  · change (h.setSignal s (some (slots ++ [⟨h.fresh,o,f⟩]))).targets = _
    rw [targets_setSignal,Option.map_some,List.map_append]
    rfl

/-- The object is connected, and a first connection is taken out. -/
theorem leads_disconnect {slots : List (Connection μ)} {senders : Finset Nat}
    (hs : h.signals s = some slots) (ho : h.objects o = some senders)
    (hm : o ∈ h.receivers s) :
    Leads (.disconnect s o) h
      (Function.update h.targets s
        (some ((slots.eraseP fun c => c.pobject = o).map Connection.target)))
      (Function.update h.objects o (some (senders.erase s))) := by
  have hany : (slots.any fun c => c.pobject = o) = true := by
    rw [receivers_of_some hs] at hm
    obtain ⟨c,hc,rfl⟩ := List.mem_map.mp hm
    exact List.any_eq_true.mpr ⟨c,hc,decide_eq_true rfl⟩
  refine ⟨0,⟨Function.update h.signals s (some (slots.eraseP fun c => c.pobject = o)),
    Function.update h.objects o (some (senders.erase s)),h.fresh⟩,fun fuel _ => ?_,?_,rfl⟩
  · rw [Action.perform,disconnect,hs]
    simp only [hany,if_true,signalDisconnect,setSignal,ho]
    rfl
  · change (h.setSignal s (some (slots.eraseP fun c => c.pobject = o))).targets = _
    rw [targets_setSignal]
    rfl

theorem leads_disconnect_absent {slots : List (Connection μ)} (hs : h.signals s = some slots)
    (hm : o ∉ h.receivers s) : Leads (.disconnect s o) h h.targets h.objects := by
  have hany : (slots.any fun c => c.pobject = o) = false := by
    refine Bool.eq_false_iff.mpr fun hany => hm ?_
    obtain ⟨c,hc,ho⟩ := List.any_eq_true.mp hany
    rw [receivers_of_some hs,← of_decide_eq_true ho]
    exact List.mem_map_of_mem hc
  refine ⟨0,h,fun fuel _ => ?_,rfl,rfl⟩
  rw [Action.perform,disconnect,hs]
  simp only [hany,Bool.false_eq_true,if_false]

private theorem disconnectSignal_done (hl : h.Linked) {slots : List (Connection μ)}
    (hs : h.signals s = some slots) :
    h.disconnectSignal s = .done ⟨Function.update h.signals s (some []),
      fun o => (h.objects o).map fun senders => senders.erase s,h.fresh⟩ := by
  rw [disconnectSignal,hs]
  simp only [foldlM_signalDisconnect s fun c hc => hl.object hs hc,Progress.bind_done,
    Progress.pure_eq,setSignal]
  refine congrArg Progress.done ((Heap.mk.injEq ..).mpr ⟨rfl,?_,rfl⟩)
  funext o
  cases ho : h.objects o with
  | none => rfl
  | some senders =>
    rw [Option.map_some,Option.map_some]
    refine congrArg some (ite_eq_left_iff.mpr fun hm => ?_)
    have hnot : s ∉ h.senders o := by
      rw [← hl s o,receivers_of_some hs]
      exact hm
    rw [Heap.senders,ho] at hnot
    exact (Finset.erase_eq_of_notMem hnot).symm

theorem leads_disconnectSignal (hl : h.Linked) {slots : List (Connection μ)}
    (hs : h.signals s = some slots) :
    Leads (.disconnectSignal s) h (Function.update h.targets s (some []))
      fun o => (h.objects o).map fun senders => senders.erase s := by
  refine ⟨0,_,fun fuel _ => disconnectSignal_done hl hs,?_,rfl⟩
  exact targets_setSignal s (some []) h

theorem leads_deleteSignal (hl : h.Linked) {slots : List (Connection μ)}
    (hs : h.signals s = some slots) :
    Leads (.deleteSignal s) h (Function.update h.targets s none)
      fun o => (h.objects o).map fun senders => senders.erase s := by
  refine ⟨0,⟨Function.update h.signals s none,
    fun o => (h.objects o).map fun senders => senders.erase s,h.fresh⟩,fun fuel _ => ?_,?_,rfl⟩
  · rw [Action.perform,disconnectSignal_done hl hs]
    simp only [Progress.bind_done,Progress.pure_eq,setSignal,Function.update_idem]
  · exact targets_setSignal s none h

private theorem disconnectObject_done (hl : h.Linked) {senders : Finset Nat}
    (ho : h.objects o = some senders) :
    h.disconnectObject o =
      .done ⟨fun s => (h.signals s).map fun slots => slots.filter fun c => c.pobject ≠ o,
        Function.update h.objects o (some ∅),h.fresh⟩ := by
  have hsignals : ∀ s ∈ senders.sort, (h.signals s).isSome := fun s hs =>
    hl.signal ho ((Finset.mem_sort _).mp hs)
  have hloop := foldlM_slotDisconnect o hsignals
  rw [disconnectObject,ho]
  simp only [hloop,Progress.bind_done,Progress.pure_eq,setObject]
  refine congrArg Progress.done ((Heap.mk.injEq ..).mpr ⟨?_,rfl,rfl⟩)
  funext s
  cases hs : h.signals s with
  | none => rfl
  | some slots =>
    rw [Option.map_some,Option.map_some]
    refine congrArg some (ite_eq_left_iff.mpr fun hm => ?_)
    have hnot : o ∉ h.receivers s := by
      rw [hl s o,Heap.senders,ho]
      exact fun hs => hm ((Finset.mem_sort _).mpr hs)
    rw [receivers_of_some hs] at hnot
    refine (List.filter_eq_self.mpr fun c hc => decide_eq_true ?_).symm
    rintro rfl
    exact hnot (List.mem_map_of_mem hc)

private theorem targets_without (o : Nat) (objects : Nat → Option (Finset Nat)) (fresh : Nat) :
    (Heap.mk (fun s => (h.signals s).map fun slots => slots.filter fun c => c.pobject ≠ o)
      objects fresh).targets =
      fun s => (h.targets s).map fun targets => targets.filter fun t => t.1 ≠ o := by
  funext s
  rw [targets,targets,Option.map_map,Option.map_map]
  refine congrArg (fun f => Option.map f (h.signals s)) (funext fun slots => ?_)
  rw [Function.comp_apply,Function.comp_apply,List.filter_map]
  rfl

theorem leads_disconnectObject (hl : h.Linked) {senders : Finset Nat}
    (ho : h.objects o = some senders) :
    Leads (.disconnectObject o) h
      (fun s => (h.targets s).map fun targets => targets.filter fun t => t.1 ≠ o)
      (Function.update h.objects o (some ∅)) :=
  ⟨0,_,fun _ _ => disconnectObject_done hl ho,targets_without ..,rfl⟩

theorem leads_deleteObject (hl : h.Linked) {senders : Finset Nat}
    (ho : h.objects o = some senders) :
    Leads (.deleteObject o) h
      (fun s => (h.targets s).map fun targets => targets.filter fun t => t.1 ≠ o)
      (Function.update h.objects o none) := by
  refine ⟨0,⟨_,Function.update h.objects o none,h.fresh⟩,fun fuel _ => ?_,targets_without ..,rfl⟩
  rw [Action.perform,disconnectObject_done hl ho]
  simp only [Progress.bind_done,Progress.pure_eq,setObject,Function.update_idem]

theorem leads_copySignal (hl : h.Linked) (s' : Nat) {slots : List (Connection μ)}
    (hs : h.signals s = some slots) :
    Leads (.copySignal s s') h (Function.update h.targets s' (h.targets s)) fun o =>
      (h.objects o).map fun senders =>
        if o ∈ h.receivers s then insert s' senders else senders := by
  have hobject : ∀ c ∈ slots, ((h.setSignal s' (some [])).objects c.pobject).isSome :=
    fun c hc => hl.object hs hc
  have hcopy : h.copySignal s s' =
      .done ⟨Function.update h.signals s' (some (nodes h.fresh (slots.map Connection.target))),
        fun o => (h.objects o).map fun senders =>
          if o ∈ slots.map Connection.pobject then insert s' senders else senders,
        h.fresh+slots.length⟩ := by
    have hnew : (h.setSignal s' (some [])).signals s' = some [] := Function.update_self ..
    rw [copySignal,hs]
    refine (foldlM_clone s' hnew hobject).trans ?_
    simp only [setSignal,Function.update_idem,List.nil_append]
  refine ⟨0,_,fun _ _ => hcopy,?_,?_⟩
  · refine (targets_setSignal s' (some (nodes h.fresh (slots.map Connection.target))) h).trans ?_
    rw [Option.map_some,map_nodes]
    simp only [targets,hs,Option.map_some]
  · rw [receivers_of_some hs]

theorem leads_copyObject (hl : h.Linked) {o' : Nat} {senders : Finset Nat}
    (ho : h.objects o = some senders) (ho' : h.objects o' = none) :
    Leads (.copyObject o o') h
      (fun s => (h.targets s).map fun targets => targets ++ duplicates o o' targets)
      (Function.update h.objects o' (some senders)) := by
  have hne : o' ≠ o := by
    rintro rfl
    rw [ho] at ho'
    cases ho'
  have hsignals : ∀ s ∈ senders.sort, (h.signals s).isSome := fun s hs =>
    hl.signal ho ((Finset.mem_sort _).mp hs)
  obtain ⟨cost,h',hdone,htargets,hobjects⟩ := foldlM_duplicate hne (senders.sort_nodup _)
    (h := h.setObject o' (some ∅)) hsignals (Function.update_self ..)
  refine ⟨cost,h',fun fuel hf => ?_,?_,?_⟩
  · rw [Action.perform,copyObject,ho]
    exact hdone fuel hf
  · rw [htargets]
    funext s
    change (h.targets s).map _ = _
    cases hs : h.targets s with
    | none => rfl
    | some targets =>
      rw [Option.map_some,Option.map_some]
      refine congrArg some (ite_eq_left_iff.mpr fun hm => ?_)
      have hnot : o ∉ h.receivers s := by
        rw [hl s o,Heap.senders,ho]
        exact fun hs => hm ((Finset.mem_sort _).mpr hs)
      rw [duplicates_of_ne,List.append_nil]
      rintro t ht rfl
      refine hnot ?_
      rw [receivers,hs]
      exact List.mem_map_of_mem ht
  · rw [hobjects,Finset.sort_toFinset,Finset.empty_union]
    exact Function.update_idem ..

def Agree (targets : Nat → Option (List (Nat × μ))) (objects : Nat → Option (Finset Nat)) :
    Prop :=
  ∀ s o, o ∈ ((targets s).getD []).map Prod.fst ↔ s ∈ (objects o).getD ∅

variable {targets : Nat → Option (List (Nat × μ))} {objects : Nat → Option (Finset Nat)}

theorem agree_connect (ha : Agree targets objects) {called : List (Nat × μ)}
    {senders : Finset Nat} (hs : targets s = some called) (ho : objects o = some senders)
    (f : μ) : Agree (Function.update targets s (some (called ++ [(o,f)])))
      (Function.update objects o (some (insert s senders))) := by
  intro t p
  have htp := ha t p
  by_cases ht : t = s
  · by_cases hp : p = o
    · subst ht hp
      simp
    · subst ht
      simpa [hp,hs,eq_comm] using htp
  · by_cases hp : p = o
    · subst hp
      simpa [ht,ho] using htp
    · simpa [ht,hp] using htp

theorem agree_disconnect (ha : Agree targets objects) {called : List (Nat × μ)}
    {senders : Finset Nat} (hs : targets s = some called) (ho : objects o = some senders) :
    Agree (Function.update targets s (some (called.filter fun t => t.1 ≠ o)))
      (Function.update objects o (some (senders.erase s))) := by
  intro t p
  have htp := ha t p
  by_cases ht : t = s
  · by_cases hp : p = o
    · subst ht hp
      simp
    · subst ht
      simpa [hp,hs] using htp
  · by_cases hp : p = o
    · subst hp
      simpa [ht,ho] using htp
    · simpa [ht,hp] using htp

theorem agree_clear (ha : Agree targets objects) (s : Nat) {called : Option (List (Nat × μ))}
    (hc : called.getD [] = []) :
    Agree (Function.update targets s called)
      fun o => (objects o).map fun senders => senders.erase s := by
  intro t p
  have htp := ha t p
  cases ho : objects p with
  | none =>
    rw [ho] at htp
    by_cases ht : t = s
    · subst ht
      simp [hc,ho]
    · simpa [ht,ho] using htp
  | some senders =>
    rw [ho] at htp
    by_cases ht : t = s
    · subst ht
      simp [hc,ho]
    · simpa [ht,ho] using htp

theorem agree_without (ha : Agree targets objects) (o : Nat) {senders : Option (Finset Nat)}
    (hn : senders.getD ∅ = ∅) :
    Agree (fun s => (targets s).map fun called => called.filter fun t => t.1 ≠ o)
      (Function.update objects o senders) := by
  intro t p
  have htp := ha t p
  cases ht : targets t with
  | none =>
    rw [ht] at htp
    by_cases hp : p = o
    · subst hp
      simp [hn,ht]
    · simpa [hp,ht] using htp
  | some called =>
    rw [ht] at htp
    by_cases hp : p = o
    · subst hp
      simp [hn,ht]
    · simpa [hp,ht] using htp

theorem agree_copySignal (ha : Agree targets objects) {s s' : Nat} (hs' : targets s' = none) :
    Agree (Function.update targets s' (targets s)) fun o => (objects o).map fun senders =>
      if o ∈ ((targets s).getD []).map Prod.fst then insert s' senders else senders := by
  intro t p
  have htp := ha t p
  have hsp := ha s p
  have hnew : s' ∉ (objects p).getD ∅ := by
    rw [← ha s' p,hs']
    exact List.not_mem_nil
  cases ho : objects p with
  | none =>
    rw [ho] at htp hsp
    by_cases ht : t = s'
    · subst ht
      simpa [ho] using hsp
    · simpa [ht,ho] using htp
  | some senders =>
    rw [ho] at htp hsp hnew
    rw [Option.getD_some] at hnew
    by_cases ht : t = s'
    · subst ht
      simp only [Function.update_self,ho,Option.map_some,Option.getD_some]
      split
      · next hm => exact iff_of_true hm (Finset.mem_insert_self ..)
      · next hm => exact iff_of_false hm hnew
    · simp only [Function.update_of_ne ht,ho,Option.map_some,Option.getD_some]
      rw [htp,Option.getD_some]
      split
      · rw [Finset.mem_insert]
        exact (or_iff_right ht).symm
      · rfl

theorem agree_copyObject (ha : Agree targets objects) {o o' : Nat} {senders : Finset Nat}
    (ho : objects o = some senders) (ho' : objects o' = none) :
    Agree (fun s => (targets s).map fun called => called ++ duplicates o o' called)
      (Function.update objects o' (some senders)) := by
  intro t p
  have htp := ha t p
  have hto := ha t o
  have hto' := ha t o'
  rw [ho,Option.getD_some] at hto
  rw [ho'] at hto'
  cases ht : targets t with
  | none =>
    rw [ht] at htp hto
    by_cases hp : p = o'
    · subst hp
      simpa [ht] using hto
    · simpa [hp,ht] using htp
  | some called =>
    rw [ht] at htp hto hto'
    by_cases hp : p = o'
    · subst hp
      have hnot : p ∉ called.map Prod.fst := fun hm => absurd (hto'.mp hm) (Finset.notMem_empty t)
      simp only [Option.map_some,Option.getD_some,List.map_append,List.mem_append,hnot,false_or,
        Function.update_self,ht]
      rw [← hto,Option.getD_some]
      constructor
      · intro hm
        obtain ⟨u,hu,-⟩ := List.mem_map.mp hm
        obtain ⟨v,hv,rfl⟩ := List.mem_map.mp hu
        obtain ⟨hv,hvo⟩ := List.mem_filter.mp hv
        exact List.mem_map.mpr ⟨v,hv,of_decide_eq_true hvo⟩
      · intro hm
        obtain ⟨v,hv,rfl⟩ := List.mem_map.mp hm
        exact List.mem_map.mpr ⟨(p,v.2),List.mem_map.mpr
          ⟨v,List.mem_filter.mpr ⟨hv,decide_eq_true rfl⟩,rfl⟩,rfl⟩
    · have hnot : p ∉ (duplicates o o' called).map Prod.fst := by
        intro hm
        obtain ⟨u,hu,hup⟩ := List.mem_map.mp hm
        obtain ⟨v,-,rfl⟩ := List.mem_map.mp hu
        exact hp hup.symm
      simp only [Option.map_some,Option.getD_some,List.map_append,List.mem_append,hnot,or_false,
        Function.update_of_ne hp,ht]
      exact htp

end Leads
end Heap
end Shepoo.Sigslot
