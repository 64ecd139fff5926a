import Shepoo.Sigslot.Emission
import Shepoo.Sigslot.Wiring

/-! What breaks an emission. Where signals and objects agree and every handler follows the
rules, it is only the call that takes the next connection away, or the signal itself. -/
namespace Shepoo.Sigslot
open Foundation BoundedLoop Heap

variable {μ τ : Type}

/-- A handler that is called where both sides agree comes back, after valid actions alone. -/
def Obeys (handler : Handler μ τ) : Prop :=
  ∀ c h rest, h.Linked → (h.objects c.pobject).isSome →
    ∃ h' rest' cost actions, handler c h rest = some (h',rest') ∧ h.wiring.ValidRun actions ∧
      ∀ fuel, cost ≤ fuel → Action.performAll fuel actions h = .done h'

namespace Emission
variable {handler : Handler μ τ} {s : Nat}

/-- The call takes away what the loop goes on with. -/
def Severs (handler : Handler μ τ) (s : Nat) (e : Emission μ τ) : Prop :=
  ∃ c behind result, e.current s = some (c,behind) ∧
    handler c e.heap e.rest = some result ∧
    (result.1.signals s = none ∨ ∃ d, behind.head? = some d ∧ d ∉ result.1.slots s)

structure Intact (s : Nat) (e : Emission μ τ) : Prop where
  linked : e.heap.Linked
  ordered : e.heap.Ordered
  signal : (e.heap.signals s).isSome
  standing : ∀ node, e.it = some node → ∃ c ∈ e.heap.slots s, c.node = node

theorem obeys_linked (ho : Obeys handler) {c : Connection μ} {h : Heap μ} (rest : τ)
    (hl : h.Linked) (hc : (h.objects c.pobject).isSome) :
    ∃ result, handler c h rest = some result ∧ result.1.Linked ∧ Later h result.1 := by
  obtain ⟨h',rest',cost,actions,hresult,hvalid,hdone⟩ := ho c h rest hl hc
  obtain ⟨cost',h'',hdone',hl',-⟩ := run_refines hl hvalid
  have heq : h' = h'' := Progress.done.inj
    ((hdone (max cost cost') (le_max_left ..)).symm.trans
      (hdone' (max cost cost') (le_max_right ..)))
  exact ⟨(h',rest'),hresult,heq ▸ hl',performAll_later (hdone cost le_rfl)⟩

theorem current_of_standing {e : Emission μ τ} (hi : Intact s e) (hg : e.guard = true) :
    ∃ c behind, e.current s = some (c,behind) := by
  obtain ⟨node,hit⟩ := Option.isSome_iff_exists.mp hg
  obtain ⟨slots,hs⟩ := Option.isSome_iff_exists.mp hi.signal
  obtain ⟨c,hc,hnode⟩ := hi.standing node hit
  rw [Heap.slots,hs,Option.getD_some] at hc
  unfold current
  rw [hit,hs]
  simp only
  split
  · next hdrop =>
    have hall := List.dropWhile_eq_nil_iff.mp hdrop c hc
    exact absurd hnode (of_decide_eq_true hall)
  · exact ⟨_,_,rfl⟩

theorem object_of_current {e : Emission μ τ} (hl : e.heap.Linked) {c : Connection μ}
    {behind : List (Connection μ)} (hc : e.current s = some (c,behind)) :
    (e.heap.objects c.pobject).isSome := by
  obtain ⟨-,before,hs⟩ := current_some hc
  exact hl.object hs (List.mem_append_right _ List.mem_cons_self)

theorem body_of_current (ho : Obeys handler) {e : Emission μ τ} (hl : e.heap.Linked)
    {c : Connection μ} {behind : List (Connection μ)} (hc : e.current s = some (c,behind)) :
    ∃ result, handler c e.heap e.rest = some result ∧ result.1.Linked ∧
      Later e.heap result.1 ∧ body handler s e = some
        ⟨behind.head?.map Connection.node,result.1,result.2,e.calls ++ [(c,e.heap)]⟩ := by
  have hobject := object_of_current hl hc
  obtain ⟨result,hresult,hl',hlater⟩ := obeys_linked ho e.rest hl hobject
  obtain ⟨senders,hsenders⟩ := Option.isSome_iff_exists.mp hobject
  refine ⟨result,hresult,hl',hlater,?_⟩
  rw [body,hc]
  simp only [hsenders,hresult,Option.map_some]

theorem intact_step (ho : Obeys handler) {e e' : Emission μ τ} (hi : Intact s e)
    (hsever : ¬ Severs handler s e) (hs : Step guard (body handler s) e e') : Intact s e' := by
  obtain ⟨c,behind,hc⟩ := current_of_standing hi hs.1
  obtain ⟨result,hresult,hl,hlater,hbody⟩ := body_of_current ho hi.linked hc
  obtain rfl := Option.some.inj (hbody.symm.trans hs.2)
  have hkeeps : result.1.signals s ≠ none ∧ ∀ d, behind.head? = some d → d ∈ result.1.slots s := by
    constructor
    · exact fun hnone => hsever ⟨c,behind,result,hc,hresult,.inl hnone⟩
    · intro d hd
      by_contra hgone
      exact hsever ⟨c,behind,result,hc,hresult,.inr ⟨d,hd,hgone⟩⟩
  refine ⟨hl,hlater.ordered hi.ordered,Option.isSome_iff_ne_none.mpr hkeeps.1,?_⟩
  intro node hnode
  obtain ⟨d,hd,rfl⟩ := Option.map_eq_some_iff.mp hnode
  exact ⟨d,hkeeps.2 d hd,rfl⟩

/-- A connection that is gone is not found again under its node. -/
theorem current_gone {e e' : Emission μ τ} (ho : e.heap.Ordered) {c d : Connection μ}
    {behind : List (Connection μ)} (hc : e.current s = some (c,behind))
    (hd : behind.head? = some d) (hlater : Later e.heap e'.heap) (hit : e'.it = some d.node)
    (hgone : d ∉ e'.heap.slots s) : e'.current s = none := by
  obtain ⟨-,before,hs⟩ := current_some hc
  have hd : d ∈ e.heap.slots s := by
    rw [Heap.slots,hs]
    exact List.mem_append_right _ (List.mem_cons_of_mem _ (List.mem_of_mem_head? hd))
  rw [Option.eq_none_iff_forall_ne_some]
  rintro ⟨k,more⟩ hk
  obtain ⟨hit',before',hs'⟩ := current_some hk
  have hnode : k.node = d.node := Option.some.inj (hit'.symm.trans hit)
  have hmem : k ∈ e'.heap.slots s := by
    rw [Heap.slots,hs']
    exact List.mem_append_right _ List.mem_cons_self
  have hold : k ∈ e.heap.slots s := hlater.kept hmem (hnode ▸ (ho s).2 d hd)
  have hnodup : ((e.heap.slots s).map Connection.node).Nodup := (ho s).1.imp fun h => h.ne
  exact hgone (List.inj_on_of_nodup_map hnodup hold hd hnode ▸ hmem)

theorem intact_start {h : Heap μ} (hl : h.Linked) (ho : h.Ordered)
    {slots : List (Connection μ)} (hs : h.signals s = some slots) (rest : τ) :
    Intact s ⟨slots.head?.map Connection.node,h,rest,[]⟩ := by
  refine ⟨hl,ho,Option.isSome_of_eq_some hs,fun node hnode => ?_⟩
  obtain ⟨c,hc,rfl⟩ := Option.map_eq_some_iff.mp hnode
  refine ⟨c,?_,rfl⟩
  rw [Heap.slots,hs]
  exact List.mem_of_mem_head? hc

/-- As long as nothing is severed, the loop can go on wherever it stands. -/
theorem intact_reaches (ho : Obeys handler) {e e' : Emission μ τ} (hi : Intact s e)
    (hn : ∀ e', Reaches guard (body handler s) e e' → ¬ Severs handler s e')
    (hr : Reaches guard (body handler s) e e') : Intact s e' := by
  induction hr with
  | refl => exact hi
  | tail hr hs ih => exact intact_step ho ih (hn _ hr) hs

theorem linked_reaches (ho : Obeys handler) {e e' : Emission μ τ} (hl : e.heap.Linked)
    (hord : e.heap.Ordered) (hr : Reaches guard (body handler s) e e') :
    e'.heap.Linked ∧ e'.heap.Ordered := by
  induction hr with
  | refl => exact ⟨hl,hord⟩
  | tail hr hs ih =>
    obtain ⟨c,behind,result,hc,hresult,rfl⟩ := body_some hs.2
    obtain ⟨result',hresult',hl',hlater,-⟩ := body_of_current ho ih.1 hc
    obtain rfl := Option.some.inj (hresult'.symm.trans hresult)
    exact ⟨hl',hlater.ordered ih.2⟩

/-- Behind a call that severs there is nothing but a fault. -/
theorem severed_fault (ho : Obeys handler) {e : Emission μ τ} (hl : e.heap.Linked)
    (hord : e.heap.Ordered) (hsever : Severs handler s e) :
    ∃ e', Step guard (body handler s) e e' ∧
      ((guard e' = true ∧ body handler s e' = none) ∨
        (guard e' = false ∧ e'.heap.signals s = none)) := by
  obtain ⟨c,behind,result,hc,hresult,hgone⟩ := hsever
  obtain ⟨result',hresult',-,hlater,hbody⟩ := body_of_current ho hl hc
  obtain rfl := Option.some.inj (hresult'.symm.trans hresult)
  obtain ⟨hit,-⟩ := current_some hc
  refine ⟨_,⟨Option.isSome_of_eq_some hit,hbody⟩,?_⟩
  have hbroken : ∀ e' : Emission μ τ, e'.current s = none → body handler s e' = none := by
    intro e' hnone
    rw [body,hnone]
  rcases hgone with hdead | ⟨d,hd,hgone⟩
  · cases behind with
    | nil => exact .inr ⟨rfl,hdead⟩
    | cons d more =>
      refine .inl ⟨rfl,hbroken _ ?_⟩
      rw [current]
      simp only [hdead,List.head?_cons,Option.map_some]
  · refine .inl ⟨?_,hbroken _ (current_gone hord hc hd hlater ?_ hgone)⟩
    · change (behind.head?.map Connection.node).isSome
      rw [hd]
      rfl
    · exact congrArg (Option.map Connection.node) hd

end Emission

def Built (program : List (Action μ)) (h : Heap μ) : Prop :=
  Wiring.empty.ValidRun program ∧
    ∃ cost, ∀ fuel, cost ≤ fuel → Action.performAll fuel program empty = .done h

theorem Built.linked {program : List (Action μ)} {h : Heap μ} (hb : Built program h) :
    h.Linked := by
  obtain ⟨hvalid,cost,hdone⟩ := hb
  obtain ⟨cost',h',hdone',hl,-⟩ := run_refines empty_linked (empty_wiring ▸ hvalid)
  have heq : h = h' := Progress.done.inj
    ((hdone (max cost cost') (le_max_left ..)).symm.trans
      (hdone' (max cost cost') (le_max_right ..)))
  exact heq ▸ hl

theorem Built.ordered {program : List (Action μ)} {h : Heap μ} (hb : Built program h) :
    h.Ordered := by
  obtain ⟨-,cost,hdone⟩ := hb
  exact (performAll_later (hdone cost le_rfl)).ordered empty_ordered

/-- With handlers that follow the rules, an emission uses something that is gone exactly if
one of its calls takes away the connection that comes next, or the signal. -/
theorem emission_faults_iff {handler : Handler μ τ} (ho : Obeys handler)
    {program : List (Action μ)} {h : Heap μ} (hb : Built program h) {s : Nat}
    {slots : List (Connection μ)} (hs : h.signals s = some slots) (rest : τ) :
    (∃ fuel, emit fuel handler s h rest = .fault) ↔
      ∃ e, Reaches Emission.guard (Emission.body handler s)
        ⟨slots.head?.map Connection.node,h,rest,[]⟩ e ∧ Emission.Severs handler s e := by
  have hstart := Emission.intact_start hb.linked hb.ordered hs rest
  constructor
  · rintro ⟨fuel,hfault⟩
    by_contra hnone
    have hn : ∀ e, Reaches Emission.guard (Emission.body handler s)
        ⟨slots.head?.map Connection.node,h,rest,[]⟩ e → ¬ Emission.Severs handler s e :=
      fun e hr hsever => hnone ⟨e,hr,hsever⟩
    rw [emit,hs] at hfault
    simp only at hfault
    cases hloop : loop Emission.guard (Emission.body handler s) fuel
        ⟨slots.head?.map Connection.node,h,rest,[]⟩ with
    | running =>
      rw [hloop] at hfault
      cases hfault
    | done e =>
      have hi := Emission.intact_reaches ho hstart hn (reaches_of_done hloop)
      rw [hloop,Progress.bind_done,if_pos hi.signal] at hfault
      cases hfault
    | fault =>
      obtain ⟨e,hr,hg,hbody⟩ := reaches_of_fault hloop
      have hi := Emission.intact_reaches ho hstart hn hr
      obtain ⟨c,behind,hc⟩ := Emission.current_of_standing hi hg
      obtain ⟨result,-,-,-,hsome⟩ := Emission.body_of_current ho hi.linked hc
      rw [hbody] at hsome
      cases hsome
  · rintro ⟨e,hr,hsever⟩
    obtain ⟨hl,hord⟩ := Emission.linked_reaches ho hb.linked hb.ordered hr
    obtain ⟨e',hstep,⟨hg,hbody⟩ | ⟨hg,hdead⟩⟩ := Emission.severed_fault ho hl hord hsever
    · obtain ⟨cost,hcost⟩ := fault_of_reaches (hr.tail hstep) hg hbody
      refine ⟨cost,?_⟩
      rw [emit,hs]
      simp only [hcost cost le_rfl,Progress.bind_fault]
    · obtain ⟨cost,hcost⟩ := done_of_reaches (hr.tail hstep) hg
      refine ⟨cost,?_⟩
      rw [emit,hs]
      simp only [hcost cost le_rfl,Progress.bind_done,hdead,Option.isSome_none,
        Bool.false_eq_true,if_false]

section Still
variable {h : Heap μ} {s : Nat} {slots : List (Connection μ)}

def still (f : Connection μ → τ → τ) : Handler μ τ := fun c h rest => some (h,f c rest)

private theorem current_at {before behind : List (Connection μ)} {c : Connection μ}
    (ho : h.Ordered) (hs : h.signals s = some (before ++ c::behind)) (rest : τ)
    (calls : List (Connection μ × Heap μ)) :
    Emission.current s ⟨some c.node,h,rest,calls⟩ = some (c,behind) := by
  have hpairs := (ho s).1
  rw [Heap.slots,hs,Option.getD_some,List.map_append,List.map_cons] at hpairs
  have hskip : ∀ k ∈ before, decide (k.node ≠ c.node) = true := by
    intro k hk
    have hlt := (List.pairwise_append.mp hpairs).2.2 _ (List.mem_map_of_mem hk) _
      List.mem_cons_self
    exact decide_eq_true hlt.ne
  have hdrop : (before ++ c::behind).dropWhile (fun k => k.node ≠ c.node) = c::behind := by
    rw [List.dropWhile_append_of_pos hskip,List.dropWhile_cons_of_neg (by simp)]
  rw [Emission.current]
  simp only [hs,hdrop]

private theorem still_reaches (hl : h.Linked) (ho : h.Ordered) (f : Connection μ → τ → τ)
    {before behind : List (Connection μ)} (hs : h.signals s = some (before ++ behind)) (rest : τ)
    (calls : List (Connection μ × Heap μ)) :
    Reaches Emission.guard (Emission.body (still f) s)
      ⟨behind.head?.map Connection.node,h,rest,calls⟩
      ⟨none,h,behind.foldl (fun rest c => f c rest) rest,
        calls ++ behind.map fun c => (c,h)⟩ := by
  induction behind generalizing before rest calls with
  | nil =>
    rw [List.map_nil,List.append_nil]
    exact .refl
  | cons c behind ih =>
    have hobject := hl.object hs (List.mem_append_right _ List.mem_cons_self)
    obtain ⟨senders,hsenders⟩ := Option.isSome_iff_exists.mp hobject
    have hstep : Step Emission.guard (Emission.body (still f) s) ⟨some c.node,h,rest,calls⟩
        ⟨behind.head?.map Connection.node,h,f c rest,calls ++ [(c,h)]⟩ := by
      refine ⟨rfl,?_⟩
      rw [Emission.body,current_at ho hs rest calls]
      simp only [hsenders,still,Option.map_some]
    have hsplit : h.signals s = some ((before ++ [c]) ++ behind) := by
      rw [hs,List.append_assoc]
      rfl
    have hrest := ih hsplit (f c rest) (calls ++ [(c,h)])
    refine .head hstep ?_
    rw [List.append_assoc] at hrest
    exact hrest

/-- Where nobody touches the wiring, an emission makes the calls it is wired for. -/
theorem emit_still {program : List (Action μ)} (hb : Built program h)
    (hs : h.signals s = some slots) (f : Connection μ → τ → τ) (rest : τ) :
    ∃ cost, ∀ fuel, cost ≤ fuel → emit fuel (still f) s h rest =
      .done ⟨none,h,slots.foldl (fun rest c => f c rest) rest,slots.map fun c => (c,h)⟩ := by
  have hall : h.signals s = some ([] ++ slots) := hs
  have hreach := still_reaches hb.linked hb.ordered f hall rest []
  obtain ⟨cost,hcost⟩ := done_of_reaches hreach rfl
  refine ⟨cost,fun fuel hf => ?_⟩
  rw [emit,hs]
  simp only [hcost fuel hf,Progress.bind_done,hs,Option.isSome_some,if_true,Progress.pure_eq,
    List.nil_append]

/-- The calls a signal makes are those the program has wired it for, whatever copies and
disconnections it has come to them by. -/
theorem program_emits {program : List (Action μ)} (hv : Wiring.empty.ValidRun program)
    {s : Nat} {targets : List (Nat × μ)}
    (hs : (Wiring.empty.rewireAll program).signals s = some targets) (f : Nat × μ → τ → τ)
    (rest : τ) :
    ∃ cost h, (∀ fuel, cost ≤ fuel → Action.performAll fuel program empty = .done h) ∧
      ∀ fuel, cost ≤ fuel → ∃ calls,
        emit fuel (still fun c => f c.target) s h rest =
          .done ⟨none,h,targets.foldl (fun rest t => f t rest) rest,calls⟩ ∧
        (calls.map fun call => call.1.target) = targets := by
  obtain ⟨cost,h,hdone,-,hw⟩ := run_refines empty_linked (empty_wiring ▸ hv)
  have htargets : h.targets s = some targets := by
    rw [empty_wiring] at hw
    exact (congrFun (congrArg Wiring.signals hw) s).trans hs
  obtain ⟨slots,hslots,rfl⟩ := Option.map_eq_some_iff.mp htargets
  have hb : Built program h := ⟨hv,cost,hdone⟩
  obtain ⟨cost',hemit⟩ := emit_still hb hslots (fun c => f c.target) rest
  refine ⟨max cost cost',h,fun fuel hf => hdone fuel ((le_max_left _ _).trans hf),
    fun fuel hf => ⟨slots.map fun c => (c,h),?_,?_⟩⟩
  · rw [hemit fuel ((le_max_right _ _).trans hf),List.foldl_map]
  · rw [List.map_map]
    rfl

def copying : List (Action Bool) :=
  [.newSignal 0,.newObject 0,.connect 0 0 false,.connect 0 0 true,.copyObject 0 1,
    .copySignal 0 1,.deleteObject 0,.deleteSignal 0]

theorem copying_emits : ∃ cost h,
    (∀ fuel, cost ≤ fuel → Action.performAll fuel copying empty = .done h) ∧
    ∀ fuel, cost ≤ fuel → ∃ calls,
      emit fuel (still fun c rest => c.target::rest) 1 h [] =
        .done ⟨none,h,[(1,true),(1,false)],calls⟩ ∧
      (calls.map fun call => call.1.target) = [(1,false),(1,true)] := by
  have hv : Wiring.empty.ValidRun copying := by
    simp [copying,Wiring.ValidRun,Wiring.Valid,Wiring.rewire,Wiring.setSignal,Wiring.without,
      Wiring.empty]
  have hs : (Wiring.empty.rewireAll copying).signals 1 = some [(1,false),(1,true)] := rfl
  exact program_emits hv hs (fun t rest => t::rest) []

def twoCalled : List (Action Bool) :=
  [.newSignal 0,.newObject 0,.newObject 1,.connect 0 0 false,.connect 0 1 true]

def twoCalledHeap : Heap Bool :=
  match Action.performAll 0 twoCalled empty with
  | .done h => h
  | _ => empty

theorem twoCalled_built : Built twoCalled twoCalledHeap := by
  refine ⟨?_,0,fun fuel _ => rfl⟩
  simp [twoCalled,Wiring.ValidRun,Wiring.Valid,Wiring.rewire,Wiring.setSignal,Wiring.empty]

end Still

section Destroying

def destroying (o : Nat) : Handler μ τ := fun _ h rest =>
  if (h.objects o).isSome then
    match (Action.deleteObject o).perform 0 h with
    | .done h' => some (h',rest)
    | _ => none
  else some (h,rest)

/-- A handler that destroys follows the rules. -/
theorem destroying_result {o : Nat} {h : Heap μ} (hl : h.Linked) (ho : (h.objects o).isSome)
    (c : Connection μ) (rest : τ) :
    ∃ h', destroying o c h rest = some (h',rest) ∧
      (∀ fuel, (Action.deleteObject o).perform fuel h = .done h') ∧
      h'.wiring = h.wiring.rewire (.deleteObject o) := by
  obtain ⟨cost,h',hdone,-,hw⟩ := perform_refines hl (show h.wiring.Valid (.deleteObject o) from ho)
  -- a destructor has no loop on a budget
  have hall : ∀ fuel, (Action.deleteObject o).perform fuel h = .done h' :=
    fun fuel => hdone cost le_rfl
  refine ⟨h',?_,hall,hw⟩
  rw [destroying,if_pos ho,hall 0]

theorem destroying_obeys (o : Nat) : Obeys (destroying o : Handler μ τ) := by
  intro c h rest hl _
  by_cases ho : (h.objects o).isSome
  · obtain ⟨h',hresult,hdone,-⟩ := destroying_result hl ho c rest
    refine ⟨h',rest,0,[.deleteObject o],hresult,⟨ho,trivial⟩,fun fuel _ => ?_⟩
    rw [Action.performAll,List.foldlM_cons,hdone fuel]
    rfl
  · exact ⟨h,rest,0,[],if_neg ho,trivial,fun _ _ => rfl⟩

/-- The first call destroys the object of the second. -/
theorem twoCalled_severed :
    (∃ e, Reaches Emission.guard (Emission.body (destroying 1) 0)
      ⟨some 0,twoCalledHeap,(),[]⟩ e ∧ Emission.Severs (destroying 1) 0 e) ∧
    ∃ fuel, emit fuel (destroying 1) 0 twoCalledHeap () = .fault := by
  have hs : twoCalledHeap.signals 0 = some [⟨0,0,false⟩,⟨1,1,true⟩] := rfl
  obtain ⟨h',hresult,-,hw⟩ := destroying_result twoCalled_built.linked (o := 1) rfl ⟨0,0,false⟩ ()
  have htargets : h'.targets 0 = some [(0,false)] := congrFun (congrArg Wiring.signals hw) 0
  have hgone : (⟨1,1,true⟩ : Connection Bool) ∉ h'.slots 0 := by
    intro hm
    obtain ⟨slots,hslots,hcalls⟩ := Option.map_eq_some_iff.mp htargets
    rw [Heap.slots,hslots,Option.getD_some] at hm
    have hcall : (1,true) ∈ slots.map Connection.target := List.mem_map_of_mem hm
    rw [hcalls] at hcall
    exact absurd (List.mem_singleton.mp hcall) (by decide)
  have hsever : Emission.Severs (destroying 1) 0 ⟨some 0,twoCalledHeap,(),[]⟩ :=
    ⟨_,_,_,rfl,hresult,.inr ⟨_,rfl,hgone⟩⟩
  exact ⟨⟨_,.refl,hsever⟩,
    (emission_faults_iff (destroying_obeys 1) twoCalled_built hs ()).mpr ⟨_,.refl,hsever⟩⟩

end Destroying
end Shepoo.Sigslot
