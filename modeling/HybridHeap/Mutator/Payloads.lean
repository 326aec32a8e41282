import HybridHeap.Mutator.Handles

/-!
# Working on payloads

Looking at the payload of a node and changing the edges it holds. A payload that a sweep has dropped
may not be used; one whose cell is mutably borrowed cannot be looked at or changed.
-/

namespace HybridHeap.Mutator

open Collector

/-- A payload may only be used while it has not been dropped. -/
def requireAttached (n : NodeId) : Act Unit := do
  if ← Act.view (·.isDetached n) then Act.fatal (.detachedUse (← Act.view (·.kind n)) n)

/-- The payload of a node, if its cell can be borrowed. -/
def borrow (n : NodeId) : Act Payload := do
  match ← Act.view (·.payload? n) with
  | none => refuse
  | some p => if p.borrowed then throw .borrowed else return p

/-- Change the payload of a node. -/
def change (n : NodeId) (f : Payload → Payload) : Act Unit := Act.update (·.modifyPayload n f)

/-- Look at the payload of a node. -/
def look (n : NodeId) : Act Reply := do
  requireAttached n
  let p ← borrow n
  return .payload n p.places p.hidden

/-- The places of a payload of the given shape that is built with edges to `kids`. -/
def placesFor (shape : Shape) (kids : List NodeId) : List (Option NodeId) :=
  match shape with
  | .list | .fixedList _ => kids.map some
  | .slots count | .fixedSlots count =>
    kids.map some ++ List.replicate (count - kids.length) none

/-- Count an edge to a node that is about to be stored. A link stores a typed edge, which is taken
from an erased one that is dropped again. -/
def countEdge (holder : Kind) (n : NodeId) : Act Unit := do
  increment n
  if holder = .link then
    increment n
    decrement n

/-- Put a node into a list, at either end. -/
def putInto {α : Type} (front : Bool) (a : α) (l : List α) : List α :=
  if front then a :: l else l ++ [a]

/-- Fill the first empty place, if there is one. -/
def fillFirst? (n : NodeId) : List (Option NodeId) → Option (List (Option NodeId))
  | [] => none
  | none :: rest => some (some n :: rest)
  | some m :: rest => (fillFirst? n rest).map (some m :: ·)

/-- Store an edge that has been counted in the payload of `n`. A link counts the typed edge that it
stores before it looks at its cell. -/
def store (n target : NodeId) (hidden front : Bool) : Act Unit := do
  let kind ← Act.view (·.kind n)
  match kind, kind.shape with
  | .link, _ =>
    if (← Act.view (·.kind target)) ≠ .link then refuse
    increment target
    let p ← onFailure (borrow n) (decrement target)
    change n fun p => { p with places := [some target] }
    releaseAll p.edges
    decrement target
  | .secret, _ =>
    discard <| borrow n
    if hidden then change n fun p => { p with hidden := putInto front target p.hidden }
    else change n fun p => { p with places := putInto front (some target) p.places }
  | _, .list =>
    discard <| borrow n
    change n fun p => { p with places := putInto front (some target) p.places }
  | _, .slots _ =>
    match fillFirst? target (← borrow n).places with
    | some places => change n fun p => { p with places }
    | none => refuse
  | _, _ => refuse

/-- Store a new edge to `target` in the payload of `n`. If that cannot be done the edge is dropped
again. -/
def link (n target : NodeId) (hidden front : Bool) : Act Unit := do
  requireAttached n
  increment target
  onFailure (store n target hidden front) (decrement target)

/-- Take the edge at a place out of the payload of `n`. Of a payload with slots, a place that it
does not have is refused even while its cell is borrowed. -/
def unlink (n : NodeId) (place : Nat) (hidden : Bool) : Act (Option NodeId) := do
  requireAttached n
  let kind ← Act.view (·.kind n)
  match kind.shape with
  | .list =>
    let p ← borrow n
    if kind = .secret && hidden then
      match p.hidden[place]? with
      | none => refuse
      | some m =>
        change n fun p => { p with hidden := p.hidden.eraseIdx place }
        decrement m
        return some m
    else
      match p.places[place]? with
      | none => refuse
      | some m =>
        change n fun p => { p with places := p.places.eraseIdx place }
        releaseAll m.toList
        return m
  | .slots count =>
    unless place < count do refuse
    let m := ((← borrow n).places[place]?).join
    change n fun p => { p with places := p.places.set place none }
    releaseAll m.toList
    return m
  | _ => refuse

/-- Take all edges out of the payload of `n`. -/
def clear (n : NodeId) (hidden : Bool) : Act Unit := do
  requireAttached n
  let kind ← Act.view (·.kind n)
  match kind, kind.shape with
  | .link, _ => refuse
  | .secret, _ =>
    let p ← borrow n
    if hidden then
      change n fun p => { p with hidden := [] }
      releaseAll p.hidden
    else
      change n fun p => { p with places := [] }
      releaseAll p.edges
  | _, .list =>
    let p ← borrow n
    change n fun p => { p with places := [] }
    releaseAll p.edges
  | _, .slots count =>
    let p ← borrow n
    change n fun p => { p with places := List.replicate count none }
    releaseAll p.edges
  | _, _ => refuse

/-- Run `body` while the payload of `n` is held by an explicit root and mutably borrowed. The root
is there first, so that also a node whose payload may not be used has been referenced. -/
def holding {α : Type} (n : NodeId) (body : Act α) : Act α := do
  let slot ← newRoot n
  ensuring
    (do
      requireAttached n
      if (← Act.view fun h => (h.kind n).cellName?).isNone then refuse
      discard <| borrow n
      change n fun p => { p with borrowed := true }
      ensuring body (change n fun p => { p with borrowed := false }))
    (dropRoot n slot)

end HybridHeap.Mutator
