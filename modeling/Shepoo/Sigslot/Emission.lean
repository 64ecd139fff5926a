import Shepoo.Foundation.Settling
import Shepoo.Sigslot.Walks

/-! Emissions. What is called may connect and disconnect as it likes, while the loop over the
connections stands at one of them. -/
namespace Shepoo.Sigslot
open Foundation BoundedLoop Heap

variable {μ τ : Type}

abbrev Handler (μ τ : Type) := Connection μ → Heap μ → τ → Option (Heap μ × τ)

/-- The loop of `emit`: `it` is a list node or the end of the list, and `calls` tells which
connections have been used, each with the heap it was found in. -/
structure Emission (μ τ : Type) where
  it : Option Nat
  heap : Heap μ
  rest : τ
  calls : List (Connection μ × Heap μ)

namespace Emission

def guard (e : Emission μ τ) : Bool := e.it.isSome

def current (s : Nat) (e : Emission μ τ) : Option (Connection μ × List (Connection μ)) :=
  match e.it,e.heap.signals s with
  | some node,some slots =>
    match slots.dropWhile fun c => c.node ≠ node with
    | [] => none
    | c::behind => some (c,behind)
  | _,_ => none

/-- `itNext` is taken before the call. -/
def body (handler : Handler μ τ) (s : Nat) (e : Emission μ τ) : Option (Emission μ τ) :=
  match e.current s with
  | none => none
  | some (c,behind) =>
    match e.heap.objects c.pobject with
    | none => none
    | some _ =>
      (handler c e.heap e.rest).map fun result =>
        ⟨behind.head?.map Connection.node,result.1,result.2,e.calls ++ [(c,e.heap)]⟩

end Emission

/-- The lock is released at the end, on the signal. -/
def emit (fuel : Nat) (handler : Handler μ τ) (s : Nat) (h : Heap μ) (rest : τ) :
    Progress (Emission μ τ) :=
  match h.signals s with
  | none => .fault
  | some slots => do
    let e ← loop Emission.guard (Emission.body handler s) fuel
      ⟨slots.head?.map Connection.node,h,rest,[]⟩
    if (e.heap.signals s).isSome then pure e else .fault

namespace Heap

def slots (h : Heap μ) (s : Nat) : List (Connection μ) := (h.signals s).getD []

def Ordered (h : Heap μ) : Prop :=
  ∀ s, ((h.slots s).map Connection.node).Pairwise (· < ·) ∧ ∀ c ∈ h.slots s, c.node < h.fresh

/-- From one heap to a later one connections go, and new ones come behind the rest. -/
structure Later (h h' : Heap μ) : Prop where
  fresh : h.fresh ≤ h'.fresh
  slots : ∀ s, ∃ kept new, h'.slots s = kept ++ new ∧ kept.Sublist (h.slots s) ∧
    (new.map Connection.node).Pairwise (· < ·) ∧ ∀ c ∈ new, h.fresh ≤ c.node ∧ c.node < h'.fresh

namespace Later
variable {h h' h'' : Heap μ}

theorem of_sublist (hf : h.fresh ≤ h'.fresh) (hs : ∀ s, (h'.slots s).Sublist (h.slots s)) :
    Later h h' :=
  ⟨hf,fun s => ⟨h'.slots s,[],(List.append_nil _).symm,hs s,List.Pairwise.nil,nofun⟩⟩

theorem refl (h : Heap μ) : Later h h := of_sublist le_rfl fun _ => List.Sublist.refl _

theorem trans (h₁ : Later h h') (h₂ : Later h' h'') : Later h h'' := by
  refine ⟨h₁.fresh.trans h₂.fresh,fun s => ?_⟩
  obtain ⟨kept,new,heq,hkept,hnew,hnodes⟩ := h₁.slots s
  obtain ⟨kept',new',heq',hkept',hnew',hnodes'⟩ := h₂.slots s
  rw [heq] at hkept'
  obtain ⟨old,young,rfl,hold,hyoung⟩ := List.sublist_append_iff.mp hkept'
  refine ⟨old,young ++ new',by rw [heq',List.append_assoc],hold.trans hkept,?_,?_⟩
  · rw [List.map_append]
    refine List.pairwise_append.mpr ⟨hnew.sublist (hyoung.map _),hnew',?_⟩
    intro n hn n' hn'
    obtain ⟨c,hc,rfl⟩ := List.mem_map.mp hn
    obtain ⟨c',hc',rfl⟩ := List.mem_map.mp hn'
    exact (hnodes c (hyoung.subset hc)).2.trans_le (hnodes' c' hc').1
  · intro c hc
    rcases List.mem_append.mp hc with hc | hc
    · have hrange := hnodes c (hyoung.subset hc)
      exact ⟨hrange.1,hrange.2.trans_le h₂.fresh⟩
    · have hrange := hnodes' c hc
      exact ⟨h₁.fresh.trans hrange.1,hrange.2⟩

theorem ordered (hl : Later h h') (ho : h.Ordered) : h'.Ordered := by
  intro s
  obtain ⟨kept,new,heq,hkept,hnew,hnodes⟩ := hl.slots s
  obtain ⟨hpairs,hbound⟩ := ho s
  rw [heq,List.map_append]
  refine ⟨List.pairwise_append.mpr ⟨hpairs.sublist (hkept.map _),hnew,?_⟩,?_⟩
  · intro n hn n' hn'
    obtain ⟨c,hc,rfl⟩ := List.mem_map.mp hn
    obtain ⟨c',hc',rfl⟩ := List.mem_map.mp hn'
    exact (hbound c (hkept.subset hc)).trans_le (hnodes c' hc').1
  · intro c hc
    rcases List.mem_append.mp hc with hc | hc
    · exact (hbound c (hkept.subset hc)).trans_le hl.fresh
    · exact (hnodes c hc).2

theorem kept (hl : Later h h') {s : Nat} {c : Connection μ} (hc : c ∈ h'.slots s)
    (hold : c.node < h.fresh) : c ∈ h.slots s := by
  obtain ⟨kept,new,heq,hkept,-,hnodes⟩ := hl.slots s
  rw [heq] at hc
  rcases List.mem_append.mp hc with hc | hc
  · exact hkept.subset hc
  · exact absurd (hnodes c hc).1 (Nat.not_le.mpr hold)

end Later

theorem slots_setSignal (s : Nat) (slots : Option (List (Connection μ))) (h : Heap μ) (t : Nat) :
    (h.setSignal s slots).slots t = if t = s then slots.getD [] else h.slots t := by
  split
  · next ht => simp only [Heap.slots,setSignal,ht,Function.update_self]
  · next ht => simp only [Heap.slots,setSignal,Function.update_of_ne ht]

/-- To set a signal to a part of its connections takes some away. -/
theorem later_setSignal {h : Heap μ} {s : Nat} {slots : Option (List (Connection μ))}
    (hs : (slots.getD []).Sublist (h.slots s)) : Later h (h.setSignal s slots) := by
  refine Later.of_sublist le_rfl fun t => ?_
  rw [slots_setSignal]
  split
  · next ht => rwa [ht]
  · exact List.Sublist.refl _

theorem later_setObject (h : Heap μ) (o : Nat) (senders : Option (Finset Nat)) :
    Later h (h.setObject o senders) := Later.of_sublist le_rfl fun _ => List.Sublist.refl _

theorem mem_nodes {fresh : Nat} {new : List (Nat × μ)} {c : Connection μ}
    (hc : c ∈ nodes fresh new) : fresh ≤ c.node ∧ c.node < fresh+new.length := by
  induction new generalizing fresh with
  | nil => cases hc
  | cons t rest ih =>
    rw [List.length_cons]
    rcases List.mem_cons.mp hc with rfl | hc
    · exact ⟨le_rfl,Nat.lt_add_of_pos_right (Nat.succ_pos _)⟩
    · have hrange := ih hc
      omega

theorem nodes_pairwise (fresh : Nat) (new : List (Nat × μ)) :
    ((nodes fresh new).map Connection.node).Pairwise (· < ·) := by
  induction new generalizing fresh with
  | nil => exact List.Pairwise.nil
  | cons t rest ih =>
    refine List.pairwise_cons.mpr ⟨fun n hn => ?_,ih (fresh+1)⟩
    obtain ⟨c,hc,rfl⟩ := List.mem_map.mp hn
    exact (mem_nodes hc).1

theorem later_append {h : Heap μ} {s : Nat} {slots : List (Connection μ)}
    (hs : h.signals s = some slots) (new : List (Nat × μ)) :
    Later h { h.setSignal s (some (slots ++ nodes h.fresh new)) with
      fresh := h.fresh+new.length } := by
  refine ⟨Nat.le_add_right ..,fun t => ?_⟩
  by_cases ht : t = s
  · refine ⟨slots,nodes h.fresh new,?_,?_,nodes_pairwise ..,fun c hc => mem_nodes hc⟩
    · exact (slots_setSignal s (some (slots ++ nodes h.fresh new)) h t).trans (if_pos ht)
    · rw [ht,Heap.slots,hs]
      exact List.Sublist.refl _
  · refine ⟨h.slots t,[],?_,List.Sublist.refl _,List.Pairwise.nil,nofun⟩
    rw [List.append_nil]
    exact (slots_setSignal s (some (slots ++ nodes h.fresh new)) h t).trans (if_neg ht)

section Operations
variable {h h' : Heap μ}

theorem signalConnect_later {sender o : Nat} (hd : h.signalConnect sender o = .done h') :
    Later h h' := by
  rw [signalConnect] at hd
  split at hd
  · cases hd
  · cases hd
    exact later_setObject ..

theorem signalDisconnect_later {sender o : Nat} (hd : h.signalDisconnect sender o = .done h') :
    Later h h' := by
  rw [signalDisconnect] at hd
  split at hd
  · cases hd
  · cases hd
    exact later_setObject ..

theorem pushBack_later {s o : Nat} {f : μ} (hd : h.pushBack s o f = .done h') : Later h h' := by
  rw [pushBack] at hd
  split at hd
  · cases hd
  · next hs =>
    cases hd
    exact later_append hs [(o,f)]

theorem connect_later {s o : Nat} {f : μ} (hd : h.connect s o f = .done h') : Later h h' := by
  obtain ⟨next,hpush,hconnect⟩ := Progress.bind_eq_done.mp hd
  exact (pushBack_later hpush).trans (signalConnect_later hconnect)

theorem disconnect_later {s o : Nat} (hd : h.disconnect s o = .done h') : Later h h' := by
  rw [disconnect] at hd
  split at hd
  · cases hd
  · next slots hs =>
    split at hd
    · refine (later_setSignal ?_).trans (signalDisconnect_later hd)
      rw [Heap.slots,hs]
      exact List.eraseP_sublist
    · cases hd
      exact Later.refl h

theorem slotDisconnect_later {s o : Nat} (hd : h.slotDisconnect s o = .done h') :
    Later h h' := by
  rw [slotDisconnect] at hd
  split at hd
  · cases hd
  · next hs =>
    cases hd
    refine later_setSignal ?_
    rw [Heap.slots,hs]
    exact List.filter_sublist

/-- However the loop goes, it has put new connections behind the old ones. -/
theorem slotDuplicate_later {fuel s old new : Nat}
    (hd : h.slotDuplicate fuel s old new = .done h') : Later h h' := by
  rw [slotDuplicate] at hd
  split at hd
  · cases hd
  · next slots hs =>
    obtain ⟨d,hloop,hd⟩ := Progress.bind_eq_done.mp hd
    cases hd
    have hbehind : ∃ made, d.slots = slots ++ nodes h.fresh made ∧
        d.fresh = h.fresh+made.length := by
      refine invariant_of_reaches (fun d : Duplication μ => ∃ made,
        d.slots = slots ++ nodes h.fresh made ∧ d.fresh = h.fresh+made.length) ?_
        (reaches_of_done hloop) ⟨[],(List.append_nil slots).symm,rfl⟩
      rintro d d' ⟨made,hslots,hfresh⟩ ⟨-,hbody⟩
      obtain ⟨c,-,rfl⟩ := Option.map_eq_some_iff.mp hbody
      split
      · refine ⟨made ++ [(new,c.pmemfun)],?_,?_⟩
        · rw [nodes_append,← List.append_assoc,hslots,hfresh]
          rfl
        · rw [hfresh,List.length_append]
          rfl
      · exact ⟨made,hslots,hfresh⟩
    obtain ⟨made,hslots,hfresh⟩ := hbehind
    rw [hslots,hfresh]
    exact later_append hs made

theorem disconnectSignal_later {s : Nat} (hd : h.disconnectSignal s = .done h') :
    Later h h' := by
  rw [disconnectSignal] at hd
  split at hd
  · cases hd
  · obtain ⟨next,hloop,hd⟩ := Progress.bind_eq_done.mp hd
    cases hd
    have hnext := foldlM_invariant (Later h)
      (fun _ _ _ hl hs => hl.trans (signalDisconnect_later hs)) hloop (Later.refl h)
    exact hnext.trans (later_setSignal (List.nil_sublist _))

theorem disconnectObject_later {o : Nat} (hd : h.disconnectObject o = .done h') :
    Later h h' := by
  rw [disconnectObject] at hd
  split at hd
  · cases hd
  · obtain ⟨next,hloop,hd⟩ := Progress.bind_eq_done.mp hd
    cases hd
    have hnext := foldlM_invariant (Later h)
      (fun _ _ _ hl hs => hl.trans (slotDisconnect_later hs)) hloop (Later.refl h)
    exact hnext.trans (later_setObject ..)

theorem copySignal_later {s s' : Nat} (hd : h.copySignal s s' = .done h') : Later h h' := by
  rw [copySignal] at hd
  split at hd
  · cases hd
  · refine foldlM_invariant (Later h) ?_ hd (later_setSignal (List.nil_sublist _))
    intro b c b' hl hs
    obtain ⟨next,hconnect,hpush⟩ := Progress.bind_eq_done.mp hs
    exact (hl.trans (signalConnect_later hconnect)).trans (pushBack_later hpush)

theorem copyObject_later {fuel o o' : Nat} (hd : h.copyObject fuel o o' = .done h') :
    Later h h' := by
  rw [copyObject] at hd
  split at hd
  · cases hd
  · refine foldlM_invariant (Later h) ?_ hd (later_setObject ..)
    intro b s b' hl hs
    obtain ⟨next,hcopy,hconnect⟩ := Progress.bind_eq_done.mp hs
    exact (hl.trans (slotDuplicate_later hcopy)).trans (signalConnect_later hconnect)

/-- Every action, whether a program should take it or not. -/
theorem perform_later {fuel : Nat} {action : Action μ}
    (hd : action.perform fuel h = .done h') : Later h h' := by
  cases action with
  | newSignal s =>
    cases hd
    exact later_setSignal (List.nil_sublist _)
  | newObject o =>
    cases hd
    exact later_setObject ..
  | connect s o f => exact connect_later hd
  | disconnect s o => exact disconnect_later hd
  | disconnectSignal s => exact disconnectSignal_later hd
  | disconnectObject o => exact disconnectObject_later hd
  | copySignal s s' => exact copySignal_later hd
  | copyObject o o' => exact copyObject_later hd
  | deleteSignal s =>
    obtain ⟨next,hclear,hd⟩ := Progress.bind_eq_done.mp hd
    cases hd
    exact (disconnectSignal_later hclear).trans (later_setSignal (List.nil_sublist _))
  | deleteObject o =>
    obtain ⟨next,hclear,hd⟩ := Progress.bind_eq_done.mp hd
    cases hd
    exact (disconnectObject_later hclear).trans (later_setObject ..)

theorem performAll_later {fuel : Nat} {actions : List (Action μ)}
    (hd : Action.performAll fuel actions h = .done h') : Later h h' :=
  foldlM_invariant (Later h) (fun _ _ _ hl hs => hl.trans (perform_later hs)) hd (Later.refl h)

theorem empty_ordered : (empty (μ := μ)).Ordered := fun _ => ⟨List.Pairwise.nil,nofun⟩

end Operations
end Heap

section Order
variable {handler : Handler μ τ} {s : Nat}

def Acts (handler : Handler μ τ) : Prop :=
  ∀ c h rest h' rest', handler c h rest = some (h',rest') →
    ∃ fuel actions, Action.performAll fuel actions h = .done h'

namespace Emission

theorem current_some {e : Emission μ τ} {c : Connection μ} {behind : List (Connection μ)}
    (h : e.current s = some (c,behind)) :
    e.it = some c.node ∧ ∃ before, e.heap.signals s = some (before ++ c::behind) := by
  rw [current] at h
  split at h
  · next node slots hit hs =>
    split at h
    · cases h
    · next d more hdrop =>
      cases h
      have hnode : c.node = node := by
        have hhead := List.head?_dropWhile_not (fun c : Connection μ => c.node ≠ node) slots
        rw [hdrop] at hhead
        simpa using hhead
      refine ⟨hit.trans (congrArg some hnode.symm),slots.takeWhile fun c => c.node ≠ node,?_⟩
      rw [← hdrop,List.takeWhile_append_dropWhile]
      exact hs
  · cases h

theorem body_some {e e' : Emission μ τ} (h : body handler s e = some e') :
    ∃ c behind result, e.current s = some (c,behind) ∧
      handler c e.heap e.rest = some result ∧
      e' = ⟨behind.head?.map Connection.node,result.1,result.2,e.calls ++ [(c,e.heap)]⟩ := by
  rw [body] at h
  split at h
  · cases h
  · next c behind hcurrent =>
    split at h
    · cases h
    · obtain ⟨result,hresult,rfl⟩ := Option.map_eq_some_iff.mp h
      exact ⟨c,behind,result,hcurrent,hresult,rfl⟩

structure Passing (s : Nat) (e : Emission μ τ) : Prop where
  ordered : e.heap.Ordered
  increasing : (e.calls.map fun call => call.1.node).Pairwise (· < ·)
  found : ∀ call ∈ e.calls, call.1 ∈ call.2.slots s ∧ call.1.node < call.2.fresh ∧
    Later call.2 e.heap
  ahead : ∀ node, e.it = some node → ∀ call ∈ e.calls, call.1.node < node
  covered : ∀ node, e.it = some node → ∀ c ∈ e.heap.slots s, c.node < node →
    c ∈ e.calls.map Prod.fst
  ended : e.it = none → ∀ c ∈ e.heap.slots s, c ∈ e.calls.map Prod.fst ∨
    ∀ call, e.calls.getLast? = some call → c ∉ call.2.slots s
  recent : ∀ call, e.calls.getLast? = some call → ∀ earlier ∈ e.calls,
    earlier.2.fresh ≤ call.2.fresh

theorem passing_start {h : Heap μ} (ho : h.Ordered) {slots : List (Connection μ)}
    (hs : h.signals s = some slots) (rest : τ) :
    Passing s ⟨slots.head?.map Connection.node,h,rest,[]⟩ where
  ordered := ho
  increasing := List.Pairwise.nil
  found _ hc := nomatch hc
  ahead _ _ _ hc := nomatch hc
  covered node hit c hc hlt := by
    rw [Heap.slots,hs,Option.getD_some] at hc
    have hpairs := (ho s).1
    rw [Heap.slots,hs,Option.getD_some] at hpairs
    cases slots with
    | nil => cases hit
    | cons first behind =>
      obtain rfl : first.node = node := Option.some.inj hit
      rcases List.mem_cons.mp hc with rfl | hc
      · exact absurd hlt (lt_irrefl _)
      · have hgt := (List.pairwise_cons.mp hpairs).1 c.node (List.mem_map_of_mem hc)
        omega
  ended _ _ _ := .inr fun _ hl => nomatch hl
  recent _ hl := nomatch hl

theorem passing_step (ha : Acts handler) {e e' : Emission μ τ} (hp : Passing s e)
    (hs : Step guard (body handler s) e e') : Passing s e' := by
  obtain ⟨c,behind,⟨h',rest'⟩,hcurrent,hresult,rfl⟩ := body_some hs.2
  obtain ⟨hit,before,hsignal⟩ := current_some hcurrent
  obtain ⟨fuel,actions,hactions⟩ := ha c e.heap e.rest h' rest' hresult
  have hlater := performAll_later hactions
  have hslots : e.heap.slots s = before ++ c::behind := by
    rw [Heap.slots,hsignal,Option.getD_some]
  obtain ⟨hpairs,hbound⟩ := hp.ordered s
  rw [hslots] at hpairs hbound
  rw [List.map_append,List.map_cons] at hpairs
  obtain ⟨-,hbehind,hbefore⟩ := List.pairwise_append.mp hpairs
  obtain ⟨hnext,hrest⟩ := List.pairwise_cons.mp hbehind
  have hc : c.node < e.heap.fresh := hbound c (List.mem_append_right _ List.mem_cons_self)
  have hcalled : ∀ k ∈ before, k ∈ e.calls.map Prod.fst := by
    intro k hk
    refine hp.covered c.node hit k ?_ ?_
    · rw [hslots]
      exact List.mem_append_left _ hk
    · exact hbefore _ (List.mem_map_of_mem hk) _ List.mem_cons_self
  have hmore : ∀ k, k ∈ before ∨ k = c →
      k ∈ (e.calls ++ [(c,e.heap)]).map Prod.fst := by
    rintro k (hk | rfl)
    · rw [List.map_append]
      exact List.mem_append_left _ (hcalled k hk)
    · rw [List.map_append]
      exact List.mem_append_right _ List.mem_cons_self
  constructor
  · exact hlater.ordered hp.ordered
  · rw [List.map_append]
    refine List.pairwise_append.mpr ⟨hp.increasing,List.pairwise_singleton ..,?_⟩
    intro n hn m hm
    obtain ⟨call,hcall,rfl⟩ := List.mem_map.mp hn
    obtain rfl := List.mem_singleton.mp hm
    exact hp.ahead c.node hit call hcall
  · intro call hcall
    rcases List.mem_append.mp hcall with hcall | hcall
    · obtain ⟨hfound,hold,hl⟩ := hp.found call hcall
      exact ⟨hfound,hold,hl.trans hlater⟩
    · obtain rfl := List.mem_singleton.mp hcall
      refine ⟨?_,hc,hlater⟩
      rw [hslots]
      exact List.mem_append_right _ List.mem_cons_self
  · intro node hnode call hcall
    obtain ⟨d,hd,rfl⟩ := Option.map_eq_some_iff.mp hnode
    have hcd : c.node < d.node := hnext _ (List.mem_map_of_mem (List.mem_of_mem_head? hd))
    rcases List.mem_append.mp hcall with hcall | hcall
    · exact (hp.ahead c.node hit call hcall).trans hcd
    · obtain rfl := List.mem_singleton.mp hcall
      exact hcd
  · intro node hnode k hk hlt
    obtain ⟨d,hd,rfl⟩ := Option.map_eq_some_iff.mp hnode
    obtain ⟨more,rfl⟩ := List.head?_eq_some_iff.mp hd
    have hdold : d.node < e.heap.fresh :=
      hbound d (List.mem_append_right _ (List.mem_cons_of_mem _ List.mem_cons_self))
    have hold := hlater.kept hk (hlt.trans hdold)
    rw [hslots] at hold
    refine hmore k ?_
    rcases List.mem_append.mp hold with hold | hold
    · exact .inl hold
    · rcases List.mem_cons.mp hold with rfl | hold
      · exact .inr rfl
      · -- what stands at the iterator or behind it is not in front of it
        have hge : d.node ≤ k.node := by
          rcases List.mem_cons.mp hold with rfl | hold
          · exact le_rfl
          · exact ((List.pairwise_cons.mp hrest).1 _ (List.mem_map_of_mem hold)).le
        exact absurd hlt (Nat.not_lt.mpr hge)
  · intro hnone k hk
    have hempty : behind = [] := by
      cases behind with
      | nil => rfl
      | cons d more => cases hnone
    subst hempty
    by_cases hold : k ∈ e.heap.slots s
    · rw [hslots] at hold
      refine .inl (hmore k ?_)
      rcases List.mem_append.mp hold with hold | hold
      · exact .inl hold
      · exact .inr (List.mem_singleton.mp hold)
    · refine .inr fun call hlast => ?_
      rw [List.getLast?_concat] at hlast
      cases hlast
      exact hold
  · intro call hlast earlier hearlier
    rw [List.getLast?_concat] at hlast
    cases hlast
    rcases List.mem_append.mp hearlier with hearlier | hearlier
    · exact (hp.found earlier hearlier).2.2.fresh
    · obtain rfl := List.mem_singleton.mp hearlier
      exact le_rfl

end Emission

theorem emit_done {fuel : Nat} {h : Heap μ} {rest : τ} {e : Emission μ τ}
    (he : emit fuel handler s h rest = .done e) :
    ∃ slots, h.signals s = some slots ∧
      Reaches Emission.guard (Emission.body handler s)
        ⟨slots.head?.map Connection.node,h,rest,[]⟩ e ∧ e.it = none := by
  rw [emit] at he
  split at he
  · cases he
  · next slots hs =>
    obtain ⟨e',hloop,he'⟩ := Progress.bind_eq_done.mp he
    split at he'
    · cases he'
      have hguard : Emission.guard e = false := guard_of_done hloop
      rw [Emission.guard,Option.isSome_eq_false_iff,Option.isNone_iff_eq_none] at hguard
      exact ⟨slots,hs,reaches_of_done hloop,hguard⟩
    · cases he'

/-- What an emission calls, whatever is connected and disconnected meanwhile: no connection
twice, all in the order in which they were made, and of those still there at the end just the
ones that were there when the last call began. -/
theorem emission_order (ha : Acts handler) {program : List (Action μ)} {cost fuel : Nat}
    {h : Heap μ} (hp : Action.performAll cost program empty = .done h) {rest : τ}
    {e : Emission μ τ} (he : emit fuel handler s h rest = .done e) :
    (e.calls.map fun call => call.1.node).Pairwise (· < ·) ∧
    (∀ call ∈ e.calls, call.1 ∈ call.2.slots s) ∧
    ∀ c ∈ e.heap.slots s, (c ∈ e.calls.map Prod.fst ↔
      ∃ call, e.calls.getLast? = some call ∧ c ∈ call.2.slots s) := by
  obtain ⟨slots,hs,hreach,hit⟩ := emit_done he
  have hpassing := invariant_of_reaches (Emission.Passing s)
    (fun _ _ hp hs => Emission.passing_step ha hp hs) hreach
    (Emission.passing_start ((performAll_later hp).ordered empty_ordered) hs rest)
  refine ⟨hpassing.increasing,fun call hcall => (hpassing.found call hcall).1,fun c hc => ?_⟩
  constructor
  · intro hcalled
    obtain ⟨call,hcall,rfl⟩ := List.mem_map.mp hcalled
    obtain ⟨last,hlast⟩ : ∃ last, e.calls.getLast? = some last :=
      ⟨_,List.getLast?_eq_some_getLast (List.ne_nil_of_mem hcall)⟩
    refine ⟨last,hlast,?_⟩
    have hold := (hpassing.found call hcall).2.1
    have hlater := (hpassing.found last (List.mem_of_getLast? hlast)).2.2
    exact hlater.kept hc (hold.trans_le (hpassing.recent last hlast call hcall))
  · rintro ⟨last,hlast,hm⟩
    rcases hpassing.ended hit c hc with hcalled | hnew
    · exact hcalled
    · exact absurd hm (hnew last hlast)

end Order

def growing : Handler Bool Unit := fun c h rest =>
  if c.pmemfun then some (h,rest)
  else
    match h.connect 0 0 true with
    | .done h' => some (h',rest)
    | _ => none

theorem growing_acts : Acts growing := by
  intro c h rest h' rest' hr
  rw [growing] at hr
  split at hr
  · cases hr
    exact ⟨0,[],rfl⟩
  · split at hr
    · next h₁ hconnect =>
      cases hr
      refine ⟨0,[.connect 0 0 true],?_⟩
      rw [Action.performAll,List.foldlM_cons,Action.perform,hconnect]
      rfl
    · cases hr

/-- The new connection is called too: the first call was not the last. -/
theorem growing_order : ∃ e : Emission Bool Unit,
    e.calls.map (fun call => call.1.node) = [0,1,2] ∧
    ((e.calls.map fun call => call.1.node).Pairwise (· < ·) ∧
      (∀ call ∈ e.calls, call.1 ∈ call.2.slots 0) ∧
      ∀ c ∈ e.heap.slots 0, (c ∈ e.calls.map Prod.fst ↔
        ∃ call, e.calls.getLast? = some call ∧ c ∈ call.2.slots 0)) := by
  refine ⟨_,?_,emission_order growing_acts
    (show Action.performAll 0 [.newSignal 0,.newObject 0,.connect 0 0 false,
      .connect 0 0 true] empty = .done _ from rfl)
    (show emit 3 growing 0 _ () = .done _ from rfl)⟩
  rfl

end Shepoo.Sigslot
