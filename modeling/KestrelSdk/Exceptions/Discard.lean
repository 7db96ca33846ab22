import Mathlib.Data.Set.Finite.Basic
import Mathlib.Logic.Function.Basic
import KestrelSdk.Graph.DepthFirst

/-! The scrubbing of an exception that may retain data of an isolated feature: the walk over its
causes, contexts and group members, on objects whose classes may answer for their own slots. -/

namespace KestrelSdk.Exceptions

/-- What Python code of a class comes to. -/
inductive Outcome (α : Type) where
  | returns (a : α)
  | raises
  | hangs
  deriving DecidableEq

namespace Outcome

variable {α β : Type}

def bind : Outcome α → (α → Outcome β) → Outcome β
  | returns a, f => f a
  | raises, _ => raises
  | hangs, _ => hangs

instance : Monad Outcome where
  pure := returns
  bind := bind

/-- `except BaseException` around an operation. -/
def guarded (o : Outcome α) (otherwise : α) : Outcome α :=
  match o with
  | returns a => returns a
  | raises => returns otherwise
  | hangs => hangs

end Outcome

/-- A Python object, by its identity. -/
inductive Object (ε ο : Type) where
  | exception (e : ε)
  | other (o : ο)
  deriving DecidableEq

/-- An object that a read gives: an exception, or another one with what `isinstance` makes of its
`__class__` at that place. -/
inductive Value (ε ο : Type) where
  | exception (e : ε)
  | other (o : ο) (poses : Outcome Bool)

/-- The native slots of an exception that the walk empties. -/
structure Slots (ε : Type) where
  traceback : Bool
  cause : Option ε
  context : Option ε
  deriving DecidableEq

def Slots.empty {ε : Type} : Slots ε := ⟨false, none, none⟩

/-- A class-level attribute in the place of a slot: what a read gives, how the write of `None`
ends, and what it leaves in the slot. -/
structure Attribute (ε ο γ : Type) where
  get : Outcome (Option (Value ε ο))
  set : Outcome Unit
  left : γ

/-- The attributes by which a class replaces the slots of `BaseException`. -/
structure Attributes (ε ο : Type) where
  traceback : Option (Attribute ε ο Bool)
  cause : Option (Attribute ε ο (Option ε))
  context : Option (Attribute ε ο (Option ε))

/-- An object that reading `exceptions` gives: its test for a tuple, what iterating it yields, and
how the iteration ends. -/
structure Nested (ε ο : Type) where
  isTuple : Outcome Bool
  members : List (Value ε ο)
  ending : Outcome Unit

/-- The exceptions `ε` and the other objects `ο` of a run. `members` are those of a native group;
`isGroup` is the test of an object that is none. The walk asks a class for each of these answers
once, and an answer changes no native slot besides the one written. -/
structure Graph (ε ο : Type) where
  slots : ε → Slots ε
  members : ε → Option (List ε)
  own : ε → Attributes ε ο
  isGroup : Object ε ο → Outcome Bool
  exceptions : ε → Outcome (Option (Nested ε ο))

variable {ε ο : Type}

def Value.isException : Value ε ο → Outcome Bool
  | exception _ => .returns true
  | other _ poses => poses

def Value.object : Value ε ο → Object ε ο
  | exception e => .exception e
  | other o _ => .other o

/-- `BaseException.__getattribute__(current, …)` of a link. -/
def getLink (native : Option ε) (own : Option (Attribute ε ο (Option ε))) :
    Outcome (Option (Value ε ο)) :=
  match own with
  | none => .returns (native.map .exception)
  | some own => own.get.guarded none

/-- `BaseException.__setattr__(current, …, None)`. -/
def setNone {γ : Type} (own : Option (Attribute ε ο γ)) (cleared : γ) : Outcome γ :=
  match own with
  | none => .returns cleared
  | some own => do
    own.set.guarded ()
    return own.left

/-- The objects that `isinstance` takes for exceptions. -/
def exceptionsOf : List (Value ε ο) → Outcome (List (Object ε ο))
  | [] => .returns []
  | value :: rest => do
    let isException ← value.isException
    let taken ← exceptionsOf rest
    return if isException then value.object :: taken else taken

/-- What one pass of the loop reads. -/
structure Links (ε ο : Type) where
  cause : Option (Value ε ο)
  context : Option (Value ε ο)
  nested : Option (Nested ε ο)

/-- What one pass of the loop appends to `to_discard`, in its order. -/
def Links.appended (links : Links ε ο) : Outcome (List (Object ε ο)) := do
  let linked ← exceptionsOf (links.cause.toList ++ links.context.toList)
  match links.nested with
  | none => return linked
  | some nested =>
    if ← nested.isTuple then
      let members ← exceptionsOf nested.members
      nested.ending
      return linked ++ members
    else
      return linked

namespace Graph

variable (g : Graph ε ο)

/-- The members of a group come from the native descriptor, which refuses what only poses as one. -/
def nested : Object ε ο → Outcome (Option (Nested ε ο))
  | .exception e =>
    match g.members e with
    | some members => .returns (some ⟨.returns true, members.map .exception, .returns ()⟩)
    | none => do
      if ← g.isGroup (.exception e) then
        return none
      else
        (g.exceptions e).guarded none
  | .other o => do
    let _ ← g.isGroup (.other o)
    return none

/-- The reads of one pass. The native operations refuse an object that is no exception. -/
def links (heap : ε → Slots ε) : Object ε ο → Outcome (Links ε ο)
  | .exception e => do
    let cause ← getLink (heap e).cause (g.own e).cause
    let context ← getLink (heap e).context (g.own e).context
    let nested ← g.nested (.exception e)
    return ⟨cause, context, nested⟩
  | .other o => do
    let nested ← g.nested (.other o)
    return ⟨none, none, nested⟩

/-- The writes of one pass. -/
def emptied (e : ε) : Outcome (Slots ε) := do
  let traceback ← setNone (g.own e).traceback false
  let cause ← setNone (g.own e).cause none
  let context ← setNone (g.own e).context none
  return ⟨traceback, cause, context⟩

variable [DecidableEq ε]

def scrub (heap : ε → Slots ε) : Object ε ο → Outcome (ε → Slots ε)
  | .exception e => do
    let slots ← g.emptied e
    return Function.update heap e slots
  | .other _ => .returns heap

/-- One pass of the loop for an object that is not in `seen`: the slots after it, and what it
appends. What is raised outside the guards ends the walk. -/
def visit (heap : ε → Slots ε) (current : Object ε ο) :
    (ε → Slots ε) × Outcome (List (Object ε ο)) :=
  match g.links heap current with
  | .raises => (heap, .raises)
  | .hangs => (heap, .hangs)
  | .returns links =>
    match g.scrub heap current with
    | .raises => (heap, .raises)
    | .hangs => (heap, .hangs)
    | .returns scrubbed => (scrubbed, links.appended)

end Graph

/-- The walk between two passes; the head of `toDiscard` is what `pop` takes. -/
structure Walk (ε ο : Type) where
  seen : List (Object ε ο)
  toDiscard : List (Object ε ο)
  heap : ε → Slots ε

inductive Progress (ε ο : Type) where
  | running (w : Walk ε ο)
  | returned (heap : ε → Slots ε)
  | hung

section Walk

variable [DecidableEq ε] [DecidableEq ο] (g : Graph ε ο)

def step (w : Walk ε ο) : Progress ε ο :=
  match w.toDiscard with
  | [] => .returned w.heap
  | current :: rest =>
    if current ∈ w.seen then
      .running { w with toDiscard := rest }
    else
      match g.visit w.heap current with
      | (heap, .returns appended) => .running ⟨current :: w.seen, appended.reverse ++ rest, heap⟩
      | (heap, .raises) => .returned heap
      | (_, .hangs) => .hung

def run : Nat → Walk ε ο → Progress ε ο
  | 0, w => .running w
  | passes + 1, w =>
    match step g w with
    | .running w' => run passes w'
    | .returned heap => .returned heap
    | .hung => .hung

def discardExceptionTraceback (exc : ε) (passes : Nat) : Progress ε ο :=
  run g passes ⟨[], [.exception exc], g.slots⟩

end Walk

namespace Graph

variable (g : Graph ε ο)

/-- A native link. -/
def Link (a b : ε) : Prop :=
  (g.slots a).cause = some b ∨ (g.slots a).context = some b ∨
    ∃ members, g.members a = some members ∧ b ∈ members

/-- Native reachability. -/
def Linked : ε → ε → Prop := Relation.ReflTransGen g.Link

/-- What the object leads to, as its class shows it. -/
def leadsTo (x : Object ε ο) : Outcome (List (Object ε ο)) := do
  let links ← g.links g.slots x
  match x with
  | .exception e =>
    let _ ← g.emptied e
    links.appended
  | .other _ => links.appended

def next (x : Object ε ο) : Option (List (Object ε ο)) :=
  match g.leadsTo x with
  | .returns appended => some appended.reverse
  | _ => none

/-- What the class of an exception lets a pass leave in the slots. -/
def left (e : ε) : Slots ε :=
  match g.links g.slots (.exception e), g.emptied e with
  | .returns _, .returns slots => slots
  | _, _ => g.slots e

variable {g}

theorem links_local {heap : ε → Slots ε} {x : Object ε ο}
    (h : ∀ e, x = .exception e → heap e = g.slots e) : g.links heap x = g.links g.slots x := by
  cases x with
  | exception e => rw [links, links, h e rfl]
  | other o => rfl

theorem next_eq_some_iff {x : Object ε ο} {appended : List (Object ε ο)} :
    g.next x = some appended.reverse ↔ g.leadsTo x = .returns appended := by
  unfold next
  cases g.leadsTo x <;> simp

theorem next_eq_none_iff {x : Object ε ο} :
    g.next x = none ↔ g.leadsTo x = .raises ∨ g.leadsTo x = .hangs := by
  unfold next
  cases g.leadsTo x <;> simp

variable (g) [DecidableEq ε] [DecidableEq ο]

/-- The slots after passes over the objects in `met`. -/
def heapAfter (met : List (Object ε ο)) (e : ε) : Slots ε :=
  if .exception e ∈ met then g.left e else g.slots e

variable {g} {met : List (Object ε ο)} {x : Object ε ο}

theorem heapAfter_new (hx : x ∉ met) (e : ε) (he : x = .exception e) :
    g.heapAfter met e = g.slots e := by
  rw [he] at hx
  exact if_neg hx

theorem heapAfter_exception {e : ε} :
    g.heapAfter (.exception e :: met) = Function.update (g.heapAfter met) e (g.left e) := by
  funext e'
  by_cases h : e' = e
  · rw [h, Function.update_self, heapAfter, if_pos List.mem_cons_self]
  · rw [Function.update_of_ne h, heapAfter, heapAfter]
    have hmem : Object.exception e' ∈ Object.exception e :: met ↔ .exception e' ∈ met := by
      rw [List.mem_cons, or_iff_right fun heq => h (Object.exception.inj heq)]
    simp only [hmem]

theorem heapAfter_other {o : ο} : g.heapAfter (.other o :: met) = g.heapAfter met := by
  funext e
  have hmem : Object.exception e ∈ Object.other o :: met ↔ .exception e ∈ met := by
    rw [List.mem_cons, or_iff_right nofun]
  simp only [heapAfter, hmem]

/-- A pass leaves the slots of its own object alone, or as the class lets it. -/
theorem visit_eq (hx : x ∉ met) :
    g.visit (g.heapAfter met) x = (g.heapAfter (x :: met), g.leadsTo x) := by
  have hlinks := links_local (heapAfter_new (g := g) hx)
  rw [visit, hlinks, leadsTo]
  cases x with
  | other o =>
    rw [heapAfter_other]
    cases g.links g.slots (.other o) <;> rfl
  | exception e =>
    have hsame : g.left e = g.slots e → g.heapAfter (.exception e :: met) = g.heapAfter met := by
      intro h
      rw [heapAfter_exception, h, ← heapAfter_new hx e rfl, Function.update_eq_self]
    cases hl : g.links g.slots (.exception e) with
    | raises => rw [hsame (by rw [left, hl])]; rfl
    | hangs => rw [hsame (by rw [left, hl])]; rfl
    | returns links =>
      cases he : g.emptied e with
      | raises =>
        rw [hsame (by rw [left, hl, he])]
        simp only [scrub, he, bind, Outcome.bind]
      | hangs =>
        rw [hsame (by rw [left, hl, he])]
        simp only [scrub, he, bind, Outcome.bind]
      | returns slots =>
        have hleft : g.left e = slots := by rw [left, hl, he]
        rw [heapAfter_exception, hleft]
        simp only [scrub, he, bind, Outcome.bind, pure]

end Graph

section Run

variable [DecidableEq ε] [DecidableEq ο] {g : Graph ε ο} {seen toDiscard : List (Object ε ο)}

/-- The walk that has taken up the objects in `seen`. -/
def walk (g : Graph ε ο) (seen toDiscard : List (Object ε ο)) : Walk ε ο :=
  ⟨seen, toDiscard, g.heapAfter seen⟩

theorem step_done : step g (walk g seen []) = .returned (g.heapAfter seen) := rfl

theorem step_known {x : Object ε ο} (hx : x ∈ seen) :
    step g (walk g seen (x :: toDiscard)) = .running (walk g seen toDiscard) :=
  if_pos hx

theorem step_new {x : Object ε ο} (hx : x ∉ seen) :
    step g (walk g seen (x :: toDiscard)) =
      match g.leadsTo x with
      | .returns appended => .running (walk g (x :: seen) (appended.reverse ++ toDiscard))
      | .raises => .returned (g.heapAfter (x :: seen))
      | .hangs => .hung := by
  simp only [step, walk, if_neg hx, Graph.visit_eq hx]
  cases g.leadsTo x <;> rfl

theorem run_of_loop {met : List (Object ε ο)} {halted : Bool}
    (h : Graph.Loop g.next seen toDiscard met halted)
    (hhangs : ∀ x ∈ met, x ∉ seen → g.leadsTo x ≠ .hangs) :
    ∃ passes, run g passes (walk g seen toDiscard) = .returned (g.heapAfter met) := by
  induction h with
  | done seen => exact ⟨1, rfl⟩
  | @known seen met toDiscard x halted hx h ih =>
    obtain ⟨passes, hrun⟩ := ih hhangs
    use passes + 1
    rw [run, step_known hx]
    exact hrun
  | @halt seen toDiscard x hx hnext =>
    use 1
    rcases Graph.next_eq_none_iff.1 hnext with hleads | hleads
    · rw [run, step_new hx, hleads]
    · exact absurd hleads (hhangs x List.mem_cons_self hx)
  | @put seen met toDiscard ys x halted hx hnext h ih =>
    have hnew : ∀ y ∈ met, y ∉ x :: seen → g.leadsTo y ≠ .hangs :=
      fun y hy hys => hhangs y hy fun hmem => hys (List.mem_cons_of_mem _ hmem)
    obtain ⟨passes, hrun⟩ := ih hnew
    have hleads : g.leadsTo x = .returns ys.reverse := by
      apply Graph.next_eq_some_iff.1
      rw [List.reverse_reverse]
      exact hnext
    use passes + 1
    rw [run, step_new hx, hleads]
    simp only [List.reverse_reverse]
    exact hrun

end Run

section Scrubbed

variable [DecidableEq ε] [DecidableEq ο] (g : Graph ε ο) (exc : ε)

/-- The walk returns, and the slots of everything that was natively linked are empty. -/
def Scrubbed : Prop :=
  ∃ passes heap, discardExceptionTraceback g exc passes = .returned heap ∧
    ∀ e, g.Linked exc e → heap e = Slots.empty

variable {g exc}

/-- An exception whose class replaces nothing that the walk uses. -/
structure Plain (g : Graph ε ο) (e : ε) : Prop where
  own : g.own e = ⟨none, none, none⟩
  isGroup : g.members e = none → g.isGroup (.exception e) = .returns false
  exceptions : g.members e = none → g.exceptions e = .raises

omit [DecidableEq ε] [DecidableEq ο] in
theorem exceptionsOf_exceptions (es : List ε) :
    exceptionsOf (ο := ο) (es.map .exception) = .returns (es.map .exception) := by
  induction es with
  | nil => rfl
  | cons e es ih =>
    rw [List.map_cons, exceptionsOf, ih]
    rfl

omit [DecidableEq ε] [DecidableEq ο] in
theorem emptied_plain {e : ε} (h : Plain g e) : g.emptied e = .returns Slots.empty := by
  rw [Graph.emptied, h.own]
  rfl

omit [DecidableEq ε] [DecidableEq ο] in
theorem links_plain {e : ε} (h : Plain g e) : g.links g.slots (.exception e) =
    .returns ⟨(g.slots e).cause.map .exception, (g.slots e).context.map .exception,
      (g.members e).map fun members => ⟨.returns true, members.map .exception, .returns ()⟩⟩ := by
  have hnested : g.nested (.exception e) = .returns
      ((g.members e).map fun members => ⟨.returns true, members.map .exception, .returns ()⟩) := by
    cases hmembers : g.members e with
    | none =>
      simp only [Graph.nested, hmembers, h.isGroup hmembers, h.exceptions hmembers, bind,
        Outcome.bind, Bool.false_eq_true, if_false, Outcome.guarded, Option.map_none]
    | some members => simp only [Graph.nested, hmembers, Option.map_some]
  rw [Graph.links, h.own, hnested]
  rfl

omit [DecidableEq ε] [DecidableEq ο] in
/-- A plain exception leads to its native links. -/
theorem leadsTo_plain {e : ε} (h : Plain g e) : ∃ linked : List ε,
    g.leadsTo (.exception e) = .returns (linked.map .exception) ∧
      ∀ b, b ∈ linked ↔ g.Link e b := by
  have hlinked : exceptionsOf (((g.slots e).cause.map (Value.exception (ο := ο))).toList ++
      ((g.slots e).context.map .exception).toList) =
      .returns (((g.slots e).cause.toList ++ (g.slots e).context.toList).map .exception) := by
    rw [← exceptionsOf_exceptions, List.map_append, Option.toList_map, Option.toList_map]
  use (g.slots e).cause.toList ++ (g.slots e).context.toList ++ ((g.members e).getD [])
  constructor
  · cases hmembers : g.members e with
    | none =>
      simp only [Graph.leadsTo, links_plain h, hmembers, emptied_plain h, Links.appended, hlinked,
        bind, Outcome.bind, pure, Option.map_none, Option.getD_none, List.append_nil]
    | some members =>
      simp only [Graph.leadsTo, links_plain h, hmembers, emptied_plain h, Links.appended, hlinked,
        bind, Outcome.bind, pure, Option.map_some, Option.getD_some, if_true,
        exceptionsOf_exceptions, List.map_append]
  · intro b
    rw [List.mem_append, List.mem_append, Option.mem_toList, Option.mem_toList, Graph.Link,
      or_assoc]
    cases g.members e <;> simp

/-- Where no class replaces anything, scrubbing a finite graph is complete and ends. -/
theorem scrubbed_of_plain (hfinite : {e | g.Linked exc e}.Finite)
    (hplain : ∀ e, g.Linked exc e → Plain g e) : Scrubbed g exc := by
  have hclosed : ∀ x ∈ hfinite.toFinset.image (Object.exception (ο := ο)), ∃ ys,
      g.next x = some ys ∧ ∀ y ∈ ys, y ∈ hfinite.toFinset.image Object.exception := by
    intro x hx
    obtain ⟨e, he, rfl⟩ := Finset.mem_image.1 hx
    have hlinked : g.Linked exc e := hfinite.mem_toFinset.1 he
    obtain ⟨linked, hleads, hmem⟩ := leadsTo_plain (hplain e hlinked)
    use (linked.map Object.exception).reverse, Graph.next_eq_some_iff.2 hleads
    intro y hy
    obtain ⟨b, hb, rfl⟩ := List.mem_map.1 (List.mem_reverse.1 hy)
    apply Finset.mem_image_of_mem
    exact hfinite.mem_toFinset.2 (hlinked.tail ((hmem b).1 hb))
  have hstart : ∀ x ∈ [Object.exception (ο := ο) exc],
      x ∈ hfinite.toFinset.image Object.exception := by
    intro x hx
    rw [List.mem_singleton.1 hx]
    exact Finset.mem_image_of_mem _ (hfinite.mem_toFinset.2 .refl)
  obtain ⟨met, hloop⟩ := Graph.exists_loop hclosed [] hstart
  obtain ⟨htodo, hmet⟩ := hloop.closed
  have hhangs : ∀ x ∈ met, x ∉ [] → g.leadsTo x ≠ .hangs := by
    intro x hx hnew hleads
    obtain ⟨ys, hnext, _⟩ := hmet x hx hnew
    rw [Graph.next_eq_none_iff.2 (.inr hleads)] at hnext
    cases hnext
  obtain ⟨passes, hrun⟩ := run_of_loop hloop hhangs
  use passes, g.heapAfter met, hrun
  intro e he
  have hmem : .exception e ∈ met := by
    induction he with
    | refl => exact htodo List.mem_cons_self
    | @tail a b ha hlink ih =>
      obtain ⟨linked, hleads, hlinked⟩ := leadsTo_plain (hplain a ha)
      obtain ⟨ys, hnext, hys⟩ := hmet _ ih List.not_mem_nil
      rw [Graph.next_eq_some_iff.2 hleads] at hnext
      cases hnext
      apply hys
      apply List.mem_reverse.2
      exact List.mem_map_of_mem ((hlinked b).2 hlink)
  rw [Graph.heapAfter, if_pos hmem, Graph.left, links_plain (hplain e he),
    emptied_plain (hplain e he)]

end Scrubbed

end KestrelSdk.Exceptions
