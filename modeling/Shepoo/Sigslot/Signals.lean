import Shepoo.Foundation.BoundedLoop

/-! Signals and the objects they call, for one number of arguments and one thread. Each side
keeps the addresses of the other; to use an object that is gone is a fault. -/
namespace Shepoo.Sigslot
open Foundation BoundedLoop

structure Connection (μ : Type) where
  node : Nat
  pobject : Nat
  pmemfun : μ
  deriving DecidableEq, Repr

/-- What exists, by address; list nodes are numbered as they are made. -/
structure Heap (μ : Type) where
  /-- `m_connected_slots` -/
  signals : Nat → Option (List (Connection μ))
  /-- `m_senders` -/
  objects : Nat → Option (Finset Nat)
  fresh : Nat

variable {μ : Type}

def Connection.target (c : Connection μ) : Nat × μ := (c.pobject,c.pmemfun)

namespace Heap

def empty : Heap μ := ⟨fun _ => none,fun _ => none,0⟩

def setSignal (s : Nat) (slots : Option (List (Connection μ))) (h : Heap μ) : Heap μ :=
  { h with signals := Function.update h.signals s slots }

def setObject (o : Nat) (senders : Option (Finset Nat)) (h : Heap μ) : Heap μ :=
  { h with objects := Function.update h.objects o senders }

/-- `m_connected_slots.push_back` -/
def pushBack (s o : Nat) (f : μ) (h : Heap μ) : Progress (Heap μ) :=
  match h.signals s with
  | none => .fault
  | some slots =>
    .done { h.setSignal s (some (slots ++ [⟨h.fresh,o,f⟩])) with fresh := h.fresh+1 }

def signalConnect (sender o : Nat) (h : Heap μ) : Progress (Heap μ) :=
  match h.objects o with
  | none => .fault
  | some senders => .done (h.setObject o (some (insert sender senders)))

def signalDisconnect (sender o : Nat) (h : Heap μ) : Progress (Heap μ) :=
  match h.objects o with
  | none => .fault
  | some senders => .done (h.setObject o (some (senders.erase sender)))

def connect (s o : Nat) (f : μ) (h : Heap μ) : Progress (Heap μ) := do
  let h ← h.pushBack s o f
  h.signalConnect s o

/-- `disconnect` returns from its loop at the first connection to the object. -/
def disconnect (s o : Nat) (h : Heap μ) : Progress (Heap μ) :=
  match h.signals s with
  | none => .fault
  | some slots =>
    if slots.any fun c => c.pobject = o then
      (h.setSignal s (some (slots.eraseP fun c => c.pobject = o))).signalDisconnect s o
    else .done h

/-- The loop of `slot_disconnect` goes on to the end. -/
def slotDisconnect (s o : Nat) (h : Heap μ) : Progress (Heap μ) :=
  match h.signals s with
  | none => .fault
  | some slots => .done (h.setSignal s (some (slots.filter fun c => c.pobject ≠ o)))

structure Duplication (μ : Type) where
  position : Nat
  slots : List (Connection μ)
  fresh : Nat

def Duplication.guard (d : Duplication μ) : Bool := d.position < d.slots.length

def Duplication.body (oldtarget newtarget : Nat) (d : Duplication μ) : Option (Duplication μ) :=
  d.slots[d.position]?.map fun c =>
    if c.pobject = oldtarget then
      ⟨d.position+1,d.slots ++ [⟨d.fresh,newtarget,c.pmemfun⟩],d.fresh+1⟩
    else { d with position := d.position+1 }

def slotDuplicate (fuel s oldtarget newtarget : Nat) (h : Heap μ) : Progress (Heap μ) :=
  match h.signals s with
  | none => .fault
  | some slots => do
    let d ← loop Duplication.guard (Duplication.body oldtarget newtarget) fuel
      ⟨0,slots,h.fresh⟩
    pure { h.setSignal s (some d.slots) with fresh := d.fresh }

/-- `_signal_base3::disconnect_all` -/
def disconnectSignal (s : Nat) (h : Heap μ) : Progress (Heap μ) :=
  match h.signals s with
  | none => .fault
  | some slots => do
    let h ← slots.foldlM (fun h c => h.signalDisconnect s c.pobject) h
    pure (h.setSignal s (some []))

/-- `has_slots::disconnect_all`, over a set that is ordered by address -/
def disconnectObject (o : Nat) (h : Heap μ) : Progress (Heap μ) :=
  match h.objects o with
  | none => .fault
  | some senders => do
    let h ← senders.sort.foldlM (fun h s => h.slotDisconnect s o) h
    pure (h.setObject o (some ∅))

/-- The copy constructor of a signal, which is made at `s'`. -/
def copySignal (s s' : Nat) (h : Heap μ) : Progress (Heap μ) :=
  match h.signals s with
  | none => .fault
  | some slots =>
    slots.foldlM (fun h c => do
      let h ← h.signalConnect s' c.pobject
      h.pushBack s' c.pobject c.pmemfun) (h.setSignal s' (some []))

/-- The copy constructor of an object with slots, which is made at `o'`. -/
def copyObject (fuel o o' : Nat) (h : Heap μ) : Progress (Heap μ) :=
  match h.objects o with
  | none => .fault
  | some senders =>
    senders.sort.foldlM (fun h s => do
      let h ← h.slotDuplicate fuel s o o'
      h.signalConnect s o') (h.setObject o' (some ∅))

end Heap

inductive Action (μ : Type) where
  | newSignal (s : Nat)
  | newObject (o : Nat)
  | connect (s o : Nat) (f : μ)
  | disconnect (s o : Nat)
  | disconnectSignal (s : Nat)
  | disconnectObject (o : Nat)
  | copySignal (s s' : Nat)
  | copyObject (o o' : Nat)
  | deleteSignal (s : Nat)
  | deleteObject (o : Nat)

namespace Action

/-- The destructors begin with `disconnect_all`. -/
def perform (fuel : Nat) : Action μ → Heap μ → Progress (Heap μ)
  | .newSignal s,h => .done (h.setSignal s (some []))
  | .newObject o,h => .done (h.setObject o (some ∅))
  | .connect s o f,h => h.connect s o f
  | .disconnect s o,h => h.disconnect s o
  | .disconnectSignal s,h => h.disconnectSignal s
  | .disconnectObject o,h => h.disconnectObject o
  | .copySignal s s',h => h.copySignal s s'
  | .copyObject o o',h => h.copyObject fuel o o'
  | .deleteSignal s,h => do
    let h ← h.disconnectSignal s
    pure (h.setSignal s none)
  | .deleteObject o,h => do
    let h ← h.disconnectObject o
    pure (h.setObject o none)

def performAll (fuel : Nat) (actions : List (Action μ)) (h : Heap μ) : Progress (Heap μ) :=
  actions.foldlM (fun h action => action.perform fuel h) h

end Action

end Shepoo.Sigslot
