import Shepoo.Sigslot.Links

/-! What signals are for: each makes its calls, and an object that goes takes the calls to it
along. As long as both sides of a heap agree, the walks over them do just that. -/
namespace Shepoo.Sigslot
open Foundation BoundedLoop Heap

variable {μ : Type}

structure Wiring (μ : Type) where
  signals : Nat → Option (List (Nat × μ))
  objects : Set Nat

namespace Wiring

def empty : Wiring μ := ⟨fun _ => none,∅⟩

def setSignal (s : Nat) (targets : Option (List (Nat × μ))) (w : Wiring μ) : Wiring μ :=
  { w with signals := Function.update w.signals s targets }

def without (o : Nat) (w : Wiring μ) : Wiring μ :=
  { w with signals := fun s => (w.signals s).map fun targets => targets.filter fun t => t.1 ≠ o }

def rewire : Action μ → Wiring μ → Wiring μ
  | .newSignal s,w => w.setSignal s (some [])
  | .newObject o,w => { w with objects := insert o w.objects }
  | .connect s o f,w => w.setSignal s ((w.signals s).map fun targets => targets ++ [(o,f)])
  | .disconnect s o,w =>
    w.setSignal s ((w.signals s).map fun targets => targets.filter fun t => t.1 ≠ o)
  | .disconnectSignal s,w => w.setSignal s (some [])
  | .disconnectObject o,w => w.without o
  | .copySignal s s',w => w.setSignal s' (w.signals s)
  | .copyObject o o',w =>
    ⟨fun s => (w.signals s).map fun targets => targets ++ duplicates o o' targets,
      insert o' w.objects⟩
  | .deleteSignal s,w => w.setSignal s none
  | .deleteObject o,w => { w.without o with objects := w.objects \ {o} }

/-- A program may use what is there and build where nothing is. An object it disconnects it
has connected at most once. -/
def Valid : Action μ → Wiring μ → Prop
  | .newSignal s,w => w.signals s = none
  | .newObject o,w => o ∉ w.objects
  | .connect s o _,w => (w.signals s).isSome ∧ o ∈ w.objects
  | .disconnect s o,w =>
    ∃ targets, w.signals s = some targets ∧ (targets.filter fun t => t.1 = o).length ≤ 1
  | .disconnectSignal s,w => (w.signals s).isSome
  | .disconnectObject o,w => o ∈ w.objects
  | .copySignal s s',w => (w.signals s).isSome ∧ w.signals s' = none
  | .copyObject o o',w => o ∈ w.objects ∧ o' ∉ w.objects
  | .deleteSignal s,w => (w.signals s).isSome
  | .deleteObject o,w => o ∈ w.objects

def rewireAll (actions : List (Action μ)) (w : Wiring μ) : Wiring μ :=
  actions.foldl (fun w action => w.rewire action) w

end Wiring

namespace Heap

def wiring (h : Heap μ) : Wiring μ := ⟨h.targets,{o | (h.objects o).isSome}⟩

section Actions
variable {h : Heap μ} {s o : Nat} {targets : Nat → Option (List (Nat × μ))}
  {objects : Nat → Option (Finset Nat)}

theorem refines_of_leads {action : Action μ} (h' : Leads action h targets objects)
    (ha : Agree targets objects)
    (hw : Wiring.mk targets {o | (objects o).isSome} = h.wiring.rewire action) :
    ∃ cost h', (∀ fuel, cost ≤ fuel → action.perform fuel h = .done h') ∧ h'.Linked ∧
      h'.wiring = h.wiring.rewire action := by
  obtain ⟨cost,h',hdone,rfl,rfl⟩ := h'
  exact ⟨cost,h',hdone,ha,hw⟩

private theorem objects_some (objects : Nat → Option (Finset Nat)) (o : Nat)
    (senders : Finset Nat) :
    {p | (Function.update objects o (some senders) p).isSome} =
      insert o {p | (objects p).isSome} := by
  apply Set.ext
  intro p
  by_cases hp : p = o
  · subst hp
    simp
  · simp [hp]

private theorem objects_live {o : Nat} {known : Finset Nat} (ho : objects o = some known)
    (senders : Finset Nat) :
    {p | (Function.update objects o (some senders) p).isSome} = {p | (objects p).isSome} := by
  rw [objects_some]
  exact Set.insert_eq_of_mem (Option.isSome_of_eq_some ho)

private theorem objects_none (objects : Nat → Option (Finset Nat)) (o : Nat) :
    {p | (Function.update objects o none p).isSome} = {p | (objects p).isSome} \ {o} := by
  apply Set.ext
  intro p
  by_cases hp : p = o
  · subst hp
    simp
  · simp [hp]

private theorem objects_map (objects : Nat → Option (Finset Nat))
    (f : Nat → Finset Nat → Finset Nat) :
    {p | ((objects p).map (f p)).isSome} = {p | (objects p).isSome} := by
  apply Set.ext
  intro p
  change ((objects p).map (f p)).isSome ↔ (objects p).isSome
  rw [Option.isSome_map]

private theorem exists_slots (hs : (h.targets s).isSome) :
    ∃ slots, h.signals s = some slots := by
  rw [targets,Option.isSome_map] at hs
  exact Option.isSome_iff_exists.mp hs

private theorem targets_of_some {slots : List (Connection μ)} (hs : h.signals s = some slots) :
    h.targets s = some (slots.map Connection.target) := by
  rw [targets,hs,Option.map_some]

private theorem object_none (ho : o ∉ h.wiring.objects) : h.objects o = none := by
  exact Option.not_isSome_iff_eq_none.mp ho

/-- Of at most one connection, the first is all. -/
private theorem eraseP_single {slots : List (Connection μ)}
    (h : ((slots.map Connection.target).filter fun t => t.1 = o).length ≤ 1) :
    (slots.eraseP fun c => c.pobject = o).map Connection.target =
      (slots.map Connection.target).filter fun t => t.1 ≠ o := by
  induction slots with
  | nil => rfl
  | cons c rest ih =>
    by_cases hc : c.pobject = o
    · have hrest : ((rest.map Connection.target).filter fun t => t.1 = o) = [] := by
        simp only [List.map_cons,List.filter_cons,Connection.target,hc,decide_true,if_true,
          List.length_cons] at h
        exact List.length_eq_zero_iff.mp (by omega)
      have hall : ∀ t ∈ rest.map Connection.target, decide (t.1 ≠ o) = true := by
        intro t ht
        exact decide_eq_true fun hto => List.filter_eq_nil_iff.mp hrest t ht (decide_eq_true hto)
      simp only [List.eraseP_cons,List.map_cons,List.filter_cons,Connection.target,hc,
        decide_true,ne_eq,not_true_eq_false,decide_false,Bool.false_eq_true,if_false]
      exact (List.filter_eq_self.mpr hall).symm
    · simp only [List.map_cons,List.filter_cons,Connection.target,hc,decide_false,
        Bool.false_eq_true,if_false] at h
      simp only [List.eraseP_cons,List.map_cons,List.filter_cons,Connection.target,hc,
        decide_false,ne_eq,not_false_eq_true,decide_true,if_true]
      exact congrArg _ (ih h)

/-- Each action does what it is meant to do, and both sides agree on it. -/
theorem perform_refines (hl : h.Linked) {action : Action μ} (hv : h.wiring.Valid action) :
    ∃ cost h', (∀ fuel, cost ≤ fuel → action.perform fuel h = .done h') ∧ h'.Linked ∧
      h'.wiring = h.wiring.rewire action := by
  have ha : Agree h.targets h.objects := hl
  cases action with
  | newSignal s =>
    have hs : h.targets s = none := hv
    have hleads : Leads (.newSignal s) h (Function.update h.targets s (some [])) h.objects :=
      ⟨0,_,fun _ _ => rfl,targets_setSignal s (some []) h,rfl⟩
    refine refines_of_leads hleads ?_ rfl
    intro t o
    by_cases ht : t = s
    · subst ht
      have hto := ha t o
      rw [hs] at hto
      simpa using hto
    · simpa [ht] using ha t o
  | newObject o =>
    have ho := object_none hv
    have hleads : Leads (.newObject o) h h.targets (Function.update h.objects o (some ∅)) :=
      ⟨0,_,fun _ _ => rfl,rfl,rfl⟩
    refine refines_of_leads hleads ?_ (congrArg (Wiring.mk h.targets) (objects_some ..))
    intro s p
    by_cases hp : p = o
    · subst hp
      have hsp := ha s p
      rw [ho] at hsp
      simpa using hsp
    · simpa [hp] using ha s p
  | connect s o f =>
    obtain ⟨slots,hs⟩ := exists_slots hv.1
    obtain ⟨senders,ho⟩ := Option.isSome_iff_exists.mp hv.2
    have ht := targets_of_some hs
    refine refines_of_leads (leads_connect hs ho f) (agree_connect ha ht ho f) ?_
    rw [objects_live ho,Wiring.rewire,Wiring.setSignal]
    simp only [wiring,ht,Option.map_some]
  | disconnect s o =>
    obtain ⟨called,ht,hone⟩ := hv
    have ht : h.targets s = some called := ht
    obtain ⟨slots,hs⟩ := exists_slots (Option.isSome_of_eq_some ht)
    obtain rfl : slots.map Connection.target = called :=
      Option.some.inj ((targets_of_some hs).symm.trans ht)
    by_cases hm : o ∈ h.receivers s
    · obtain ⟨senders,ho,-⟩ := object_of_sender ((hl s o).mp hm)
      have hleads := leads_disconnect hs ho hm
      rw [eraseP_single hone] at hleads
      refine refines_of_leads hleads (agree_disconnect ha ht ho) ?_
      rw [objects_live ho,Wiring.rewire,Wiring.setSignal]
      simp only [wiring,ht,Option.map_some]
    · refine refines_of_leads (leads_disconnect_absent hs hm) ha ?_
      have hall : ∀ t ∈ slots.map Connection.target, t.1 ≠ o := by
        rintro t hmem rfl
        refine hm ?_
        rw [receivers,ht]
        exact List.mem_map_of_mem hmem
      have hsame : ((slots.map Connection.target).filter fun t => t.1 ≠ o) =
          slots.map Connection.target := List.filter_eq_self.mpr (by simpa using hall)
      rw [Wiring.rewire,Wiring.setSignal]
      simp only [wiring,ht,Option.map_some,hsame]
      rw [← ht,Function.update_eq_self]
  | disconnectSignal s =>
    obtain ⟨slots,hs⟩ := exists_slots hv
    refine refines_of_leads (leads_disconnectSignal hl hs) (agree_clear ha s rfl) ?_
    rw [objects_map h.objects fun _ senders => senders.erase s]
    rfl
  | disconnectObject o =>
    obtain ⟨senders,ho⟩ := Option.isSome_iff_exists.mp hv
    refine refines_of_leads (leads_disconnectObject hl ho) (agree_without ha o rfl) ?_
    rw [objects_live ho]
    rfl
  | copySignal s s' =>
    obtain ⟨slots,hs⟩ := exists_slots hv.1
    refine refines_of_leads (leads_copySignal hl s' hs) (agree_copySignal ha hv.2) ?_
    rw [objects_map h.objects fun o senders =>
      if o ∈ h.receivers s then insert s' senders else senders]
    rfl
  | copyObject o o' =>
    obtain ⟨senders,ho⟩ := Option.isSome_iff_exists.mp hv.1
    have ho' := object_none hv.2
    refine refines_of_leads (leads_copyObject hl ho ho') (agree_copyObject ha ho ho') ?_
    rw [objects_some]
    rfl
  | deleteSignal s =>
    obtain ⟨slots,hs⟩ := exists_slots hv
    refine refines_of_leads (leads_deleteSignal hl hs) (agree_clear ha s rfl) ?_
    rw [objects_map h.objects fun _ senders => senders.erase s]
    rfl
  | deleteObject o =>
    obtain ⟨senders,ho⟩ := Option.isSome_iff_exists.mp hv
    refine refines_of_leads (leads_deleteObject hl ho) (agree_without ha o rfl) ?_
    rw [objects_none]
    rfl

end Actions
end Heap

namespace Wiring

def ValidRun : List (Action μ) → Wiring μ → Prop
  | [],_ => True
  | action::rest,w => w.Valid action ∧ ValidRun rest (w.rewire action)

end Wiring

namespace Heap

theorem empty_linked : (empty (μ := μ)).Linked := by
  intro s o
  simp [receivers,targets,empty,senders]

theorem empty_wiring : (empty (μ := μ)).wiring = Wiring.empty := by
  refine congrArg (Wiring.mk fun _ => none) (Set.ext fun o => ?_)
  exact iff_of_false nofun nofun

/-- A program that follows the rules wires up what it means to, and never uses anything that
is gone. -/
theorem run_refines {h : Heap μ} (hl : h.Linked) {actions : List (Action μ)}
    (hv : h.wiring.ValidRun actions) :
    ∃ cost h', (∀ fuel, cost ≤ fuel → Action.performAll fuel actions h = .done h') ∧
      h'.Linked ∧ h'.wiring = h.wiring.rewireAll actions := by
  induction actions generalizing h with
  | nil => exact ⟨0,h,fun _ _ => rfl,hl,rfl⟩
  | cons action rest ih =>
    obtain ⟨cost,next,hdone,hnext,hw⟩ := perform_refines hl hv.1
    obtain ⟨cost',h',hrest,hl',hw'⟩ := ih hnext (hw ▸ hv.2)
    refine ⟨max cost cost',h',fun fuel hf => ?_,hl',?_⟩
    · rw [Action.performAll,List.foldlM_cons,hdone fuel ((le_max_left _ _).trans hf)]
      exact hrest fuel ((le_max_right _ _).trans hf)
    · rw [hw',hw]
      rfl

end Heap
end Shepoo.Sigslot
