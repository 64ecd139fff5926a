import Shepoo.Sigslot.Wiring

/-! To disconnect an object that a signal calls more than once. Only the first connection
goes, but the object forgets the signal. -/
namespace Shepoo.Sigslot
open Foundation BoundedLoop

variable {μ : Type} {h : Heap μ} {s o : Nat}

namespace Heap

/-- The walk over the connections of a signal comes to an object that is gone. -/
theorem foldlM_signalDisconnect_fault {slots : List (Connection μ)} {h : Heap μ}
    {c : Connection μ} (hc : c ∈ slots) (hgone : h.objects c.pobject = none) (s : Nat) :
    slots.foldlM (fun h c => h.signalDisconnect s c.pobject) h = .fault := by
  induction slots generalizing h with
  | nil => cases hc
  | cons d rest ih =>
    rw [List.foldlM_cons]
    cases hd : h.objects d.pobject with
    | none => simp only [signalDisconnect,hd,Progress.bind_fault]
    | some senders =>
      have hne : c.pobject ≠ d.pobject := by
        intro heq
        rw [heq,hd] at hgone
        cases hgone
      simp only [signalDisconnect,hd,Progress.bind_done]
      refine ih ?_ ?_
      · rcases List.mem_cons.mp hc with rfl | hc
        · exact absurd rfl hne
        · exact hc
      · exact (Function.update_of_ne hne ..).trans hgone

private theorem count_targets (slots : List (Connection μ)) (o : Nat) :
    ((slots.map Connection.target).filter fun t => t.1 = o).length =
      (slots.map Connection.pobject).count o := by
  rw [← List.countP_eq_length_filter,List.countP_map,List.count,List.countP_map]
  refine List.countP_congr fun c _ => ?_
  rw [Function.comp_apply,Function.comp_apply,Connection.target,decide_eq_true_iff,beq_iff_eq]

/-- The object is left with a connection it does not know of. -/
private theorem left_connected {slots : List (Connection μ)}
    (hm : 2 ≤ (slots.map Connection.pobject).count o) :
    ∃ c ∈ slots.eraseP fun c => c.pobject = o, c.pobject = o := by
  induction slots with
  | nil => cases hm
  | cons c rest ih =>
    rw [List.map_cons,List.count_cons] at hm
    by_cases hc : c.pobject = o
    · have hrest : 0 < (rest.map Connection.pobject).count o := by
        simp only [hc,beq_self_eq_true,if_true] at hm
        omega
      obtain ⟨d,hd,hdo⟩ := List.mem_map.mp (List.count_pos_iff.mp hrest)
      refine ⟨d,?_,hdo⟩
      simp only [List.eraseP_cons,hc,decide_true]
      exact hd
    · have hrest : 2 ≤ (rest.map Connection.pobject).count o := by
        simp only [hc,beq_iff_eq,if_false,Nat.add_zero] at hm
        exact hm
      obtain ⟨d,hd,hdo⟩ := ih hrest
      refine ⟨d,?_,hdo⟩
      simp only [List.eraseP_cons,hc,decide_false]
      exact List.mem_cons_of_mem c hd

/-- When an object goes that is called by a signal it does not know, the signal cannot be
destroyed any more. -/
private theorem delete_fault {known : Finset Nat} (ho : h.objects o = some known)
    (hl : ∀ t ∈ known, (h.signals t).isSome) (hk : s ∉ known) {left : List (Connection μ)}
    (hs : h.signals s = some left) {c : Connection μ} (hc : c ∈ left) (hco : c.pobject = o)
    (fuel : Nat) : Action.performAll fuel [.deleteObject o,.deleteSignal s] h = .fault := by
  have hsignals : ∀ t ∈ known.sort, (h.signals t).isSome := fun t ht =>
    hl t ((Finset.mem_sort _).mp ht)
  have hfirst : (Action.deleteObject o).perform fuel h = .done
      ⟨fun t => (h.signals t).map fun slots =>
          if t ∈ known.sort then slots.filter fun c => c.pobject ≠ o else slots,
        Function.update h.objects o none,h.fresh⟩ := by
    rw [Action.perform,disconnectObject,ho]
    simp only [foldlM_slotDisconnect o hsignals,Progress.bind_done,Progress.pure_eq,setObject,
      Function.update_idem]
  have hnot : s ∉ known.sort := fun hm => hk ((Finset.mem_sort _).mp hm)
  have hsecond : (Action.deleteSignal s).perform fuel
      ⟨fun t => (h.signals t).map fun slots =>
          if t ∈ known.sort then slots.filter fun c => c.pobject ≠ o else slots,
        Function.update h.objects o none,h.fresh⟩ = .fault := by
    rw [Action.perform,disconnectSignal]
    simp only [hs,Option.map_some,if_neg hnot]
    have hgone : Function.update h.objects o none c.pobject = none := by
      rw [hco,Function.update_self]
    rw [foldlM_signalDisconnect_fault hc hgone]
    rfl
  rw [Action.performAll,List.foldlM_cons,hfirst,Progress.bind_done,List.foldlM_cons,hsecond,
    Progress.bind_fault]

/-- After `disconnect` both sides agree exactly if there was one connection at most. From two
on the signal still calls the object, which no longer knows it. The object's destructor then
leaves a connection behind, and the destructor of the signal uses what is gone. -/
theorem disconnect_linked_iff (hl : h.Linked) {slots : List (Connection μ)}
    {senders : Finset Nat} (hs : h.signals s = some slots) (ho : h.objects o = some senders) :
    ∃ h' : Heap μ, h.disconnect s o = .done h' ∧
      (h'.Linked ↔ (slots.map Connection.pobject).count o ≤ 1) ∧
      ((o ∈ h'.receivers s ∧ s ∉ h'.senders o) ↔ 2 ≤ (slots.map Connection.pobject).count o) ∧
      ∀ fuel, Action.performAll fuel [.deleteObject o,.deleteSignal s] h' = .fault ↔
        2 ≤ (slots.map Connection.pobject).count o := by
  have htargets : h.targets s = some (slots.map Connection.target) := by
    rw [targets,hs,Option.map_some]
  by_cases hone : (slots.map Connection.pobject).count o ≤ 1
  · have hvalid : h.wiring.Valid (.disconnect s o) := by
      refine ⟨slots.map Connection.target,htargets,?_⟩
      rwa [count_targets]
    obtain ⟨cost,h',hdone,hl',hw⟩ := perform_refines hl hvalid
    have hrest : h'.wiring.ValidRun [.deleteObject o,.deleteSignal s] := by
      rw [hw]
      refine ⟨Option.isSome_of_eq_some ho,?_,trivial⟩
      change ((Function.update h.targets s _ s).map _).isSome
      rw [Function.update_self,Option.isSome_map,Option.isSome_map]
      exact Option.isSome_of_eq_some htargets
    obtain ⟨cost',last,hlast,-⟩ := run_refines hl' hrest
    have hagree : ¬ (o ∈ h'.receivers s ∧ s ∉ h'.senders o) := fun hhalf =>
      hhalf.2 ((hl' s o).mp hhalf.1)
    refine ⟨h',hdone cost le_rfl,iff_of_true hl' hone,iff_of_false hagree (by omega),
      fun fuel => ?_⟩
    refine iff_of_false ?_ (by omega)
    -- neither action has a loop on a budget
    have hsame : Action.performAll fuel [.deleteObject o,.deleteSignal s] h' =
        Action.performAll cost' [.deleteObject o,.deleteSignal s] h' := rfl
    rw [hsame,hlast cost' le_rfl]
    intro hfault
    cases hfault
  · have htwo : 2 ≤ (slots.map Connection.pobject).count o := by omega
    obtain ⟨c,hc,hco⟩ := left_connected htwo
    have hm : o ∈ h.receivers s := by
      rw [receivers_of_some hs]
      exact List.count_pos_iff.mp (by omega)
    obtain ⟨cost,h',hdone,ht,hobjects⟩ := leads_disconnect hs ho hm
    have hleft : h'.targets s = some ((slots.eraseP fun c => c.pobject = o).map
        Connection.target) := by
      rw [ht,Function.update_self]
    obtain ⟨left,hsignal,hmap⟩ := Option.map_eq_some_iff.mp hleft
    obtain ⟨d,hd,hdc⟩ := List.mem_map.mp (hmap ▸ List.mem_map_of_mem hc)
    have hdo : d.pobject = o := (congrArg Prod.fst hdc).trans hco
    have ho' : h'.objects o = some (senders.erase s) := by
      rw [hobjects,Function.update_self]
    have hlive : ∀ t ∈ senders.erase s, (h'.signals t).isSome := by
      intro t ht'
      have ht' := Finset.mem_erase.mp ht'
      have hsome : (h'.targets t).isSome := by
        rw [ht,Function.update_of_ne ht'.1,targets,Option.isSome_map]
        exact hl.signal ho ht'.2
      rwa [targets,Option.isSome_map] at hsome
    have hcalled : o ∈ h'.receivers s := by
      rw [receivers_of_some hsignal,← hdo]
      exact List.mem_map_of_mem hd
    have hforgotten : s ∉ h'.senders o := by
      rw [Heap.senders,ho']
      exact Finset.notMem_erase s senders
    refine ⟨h',hdone cost le_rfl,iff_of_false ?_ hone,iff_of_true ⟨hcalled,hforgotten⟩ htwo,
      fun fuel => iff_of_true ?_ htwo⟩
    · exact fun hl' => hforgotten ((hl' s o).mp hcalled)
    · exact delete_fault ho' hlive (Finset.notMem_erase s senders) hsignal hd hdo fuel

def twice : Heap Bool where
  signals s := if s = 0 then some [⟨0,0,false⟩,⟨1,0,true⟩] else none
  objects o := if o = 0 then some {0} else none
  fresh := 2

theorem twice_linked : twice.Linked := by
  intro s o
  by_cases hs : s = 0
  · by_cases ho : o = 0 <;> simp [receivers,targets,senders,twice,hs,ho,Connection.target]
  · by_cases ho : o = 0 <;> simp [receivers,targets,senders,twice,hs,ho]

theorem twice_disconnected : ∃ h' : Heap Bool, twice.disconnect 0 0 = .done h' ∧
    (h'.Linked ↔ ([0,0] : List Nat).count 0 ≤ 1) ∧
    ((0 ∈ h'.receivers 0 ∧ 0 ∉ h'.senders 0) ↔ 2 ≤ ([0,0] : List Nat).count 0) ∧
    ∀ fuel, Action.performAll fuel [.deleteObject 0,.deleteSignal 0] h' = .fault ↔
      2 ≤ ([0,0] : List Nat).count 0 := by
  have hs : twice.signals 0 = some [⟨0,0,false⟩,⟨1,0,true⟩] := rfl
  have ho : twice.objects 0 = some {0} := rfl
  exact disconnect_linked_iff twice_linked hs ho

end Heap
end Shepoo.Sigslot
