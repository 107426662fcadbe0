import Neuropil.Lib.Fault

namespace Neuropil.Tree.RedBlack

inductive Fault
  | nullDereference
  | immutable
deriving Repr, DecidableEq

inductive Color
  | black
  | red
deriving Repr, DecidableEq

inductive Side
  | left
  | right
deriving Repr, DecidableEq

def Side.other : Side → Side
  | .left => .right
  | .right => .left

/-- The elements below an `rbe` pointer; `nil` is the NULL pointer. -/
inductive Node (κ ν : Type)
  | nil
  | node (color : Color) (left : Node κ ν) (key : κ) (val : ν) (right : Node κ ν)
deriving Repr, DecidableEq

/-- A parent on the way up from an element, its child on `side`; `sibling` is the other child. A
list of frames stands for the chain of `rbe_parent` pointers. -/
structure Frame (κ ν : Type) where
  side : Side
  color : Color
  key : κ
  val : ν
  sibling : Node κ ν

abbrev Path (κ ν : Type) := List (Frame κ ν)

variable {κ ν : Type}

def isRed : Node κ ν → Bool
  | .node .red _ _ _ _ => true
  | _ => false

def paint (color : Color) : Node κ ν → Node κ ν
  | .nil => .nil
  | .node _ l k v r => .node color l k v r

variable (side : Side)

def child : Node κ ν → Node κ ν
  | .nil => .nil
  | .node _ l _ _ r => match side with
    | .left => l
    | .right => r

def join (color : Color) (near : Node κ ν) (key : κ) (val : ν) (far : Node κ ν) : Node κ ν :=
  match side with
  | .left => .node color near key val far
  | .right => .node color far key val near

def Frame.join (f : Frame κ ν) (elm : Node κ ν) : Node κ ν :=
  RedBlack.join f.side f.color elm f.key f.val f.sibling

def plug : Path κ ν → Node κ ν → Node κ ν
  | [], elm => elm
  | f :: path, elm => plug path (f.join elm)

/-- RB_ROTATE_LEFT for `.left` and RB_ROTATE_RIGHT for `.right`: the child on the other side takes
the place of the element. -/
def rotate (elm : Node κ ν) : Except Fault (Node κ ν) :=
  match side, elm with
  | .left, .node c l k v (.node c' l' k' v' r') => .ok (.node c' (.node c l k v l') k' v' r')
  | .right, .node c (.node c' l' k' v' r') k v r => .ok (.node c' l' k' v' (.node c r' k v r))
  | _, _ => .error .nullDereference

/-- The rotations that end RB_INSERT_COLOR; `f` is the parent of `elm`, `g` its grandparent. -/
def insertRotate (f g : Frame κ ν) (elm : Node κ ν) : Except Fault (Node κ ν) := do
  let parent ← if f.side = g.side then pure (f.join elm) else rotate g.side (f.join elm)
  rotate g.side.other ({ g with color := .red }.join (paint .black parent))

/-- RB_INSERT_COLOR. The source writes its loop body twice, for a parent that is the left or the
right child of `gparent`; here `g.side` tells them apart. -/
def insertColor : Path κ ν → Node κ ν → Except Fault (Node κ ν)
  | [], elm => .ok (paint .black elm)
  | f :: path, elm =>
    match f.color with
    | .black => .ok (paint .black (plug (f :: path) elm))
    | .red =>
      match path with
      | [] => .error .nullDereference
      | g :: path' =>
        if isRed g.sibling then
          insertColor path' ({ g with color := .red, sibling := paint .black g.sibling }.join
            ({ f with color := .black }.join elm))
        else do
          let top ← insertRotate f g elm
          .ok (paint .black (plug path' top))

/-- The sibling takes the colour of the parent and its child away from `elm` becomes black. -/
def takeColor (color : Color) : Node κ ν → Node κ ν
  | .nil => .nil
  | .node _ l k v r => match side with
    | .left => .node color l k v (paint .black r)
    | .right => .node color (paint .black l) k v r

/-- The loop body of RB_REMOVE_COLOR once the sibling `tmp` of `elm` is black. `.inl` hands the
parent to the next round, `.inr` leaves the loop. -/
def settle (color : Color) (key : κ) (val : ν) (elm tmp : Node κ ν) :
    Except Fault (Node κ ν ⊕ Node κ ν) :=
  match tmp with
  | .nil => .error .nullDereference
  | .node c l k v r =>
    if !isRed l && !isRed r then .ok (.inl (join side color elm key val (.node .red l k v r)))
    else do
      let tmp ← match side with
        | .left =>
          if isRed r then pure (.node c l k v r)
          else rotate .right (.node .red (paint .black l) k v r)
        | .right =>
          if isRed l then pure (.node c l k v r)
          else rotate .left (.node .red l k v (paint .black r))
      let top ← rotate side (join side .black elm key val (takeColor side color tmp))
      .ok (.inr top)

/-- RB_REMOVE_COLOR: `elm` stands where a black element is missing. -/
def removeColor : Path κ ν → Node κ ν → Except Fault (Node κ ν)
  | [], elm => .ok (paint .black elm)
  | f :: path, elm =>
    if isRed elm then .ok (plug (f :: path) (paint .black elm))
    else match f.sibling with
    | .nil => .error .nullDereference
    | .node .red l k v r => do
      -- the red sibling takes the place of the parent, which is painted red and goes below it
      let tmp := child f.side (.node .red l k v r)
      let above : Frame κ ν := ⟨f.side, .black, k, v, child f.side.other (.node .red l k v r)⟩
      match ← settle f.side .red f.key f.val elm tmp with
      -- the parent is red, which ends the loop
      | .inl parent => .ok (plug (above :: path) (paint .black parent))
      | .inr top => .ok (paint .black (plug (above :: path) top))
    | .node .black l k v r => do
      match ← settle f.side f.color f.key f.val elm (.node .black l k v r) with
      | .inl parent => removeColor path parent
      | .inr top => .ok (paint .black (plug path top))

structure Found (κ ν : Type) where
  path : Path κ ν
  color : Color
  left : Node κ ν
  key : κ
  val : ν
  right : Node κ ν

def Found.elem (f : Found κ ν) : Node κ ν := .node f.color f.left f.key f.val f.right

def Found.write (f : Found κ ν) (val : ν) : Node κ ν :=
  plug f.path (.node f.color f.left f.key val f.right)

/-- The loop of RB_FIND and RB_INSERT: from `path` down to the element that compares equal, or to
the NULL pointer where it would hang. -/
def search (cmp : κ → κ → Int) (elm : κ) : Path κ ν → Node κ ν → Path κ ν × Node κ ν
  | path, .nil => (path, .nil)
  | path, .node c l k v r =>
    if cmp elm k < 0 then search cmp elm (⟨.left, c, k, v, r⟩ :: path) l
    else if cmp elm k > 0 then search cmp elm (⟨.right, c, k, v, l⟩ :: path) r
    else (path, .node c l k v r)

def rbFind (cmp : κ → κ → Int) (elm : κ) (root : Node κ ν) : Option (Found κ ν) :=
  match search cmp elm [] root with
  | (_, .nil) => none
  | (path, .node c l k v r) => some ⟨path, c, l, k, v, r⟩

/-- RB_INSERT. Where the comparison finds an equal element the tree stays as it is. -/
def rbInsert (cmp : κ → κ → Int) (elm : κ) (val : ν) (root : Node κ ν) : Except Fault (Node κ ν) :=
  match search cmp elm [] root with
  | (path, .nil) => insertColor path (.node .red .nil elm val .nil)
  | (_, .node _ _ _ _ _) => .ok root

def leftmost (path : Path κ ν) (color : Color) (key : κ) (val : ν) (right : Node κ ν) :
    Node κ ν → Found κ ν
  | .nil => ⟨path, color, .nil, key, val, right⟩
  | .node c l k v r => leftmost (⟨.left, color, key, val, right⟩ :: path) c k v r l

def closeGap (color : Color) (path : Path κ ν) (child : Node κ ν) : Except Fault (Node κ ν) :=
  match color with
  | .black => removeColor path child
  | .red => .ok (plug path child)

/-- RB_REMOVE. An element with two children gives its place, colour and children to its successor,
and the gap to close is where the successor was. -/
def rbRemove (old : Found κ ν) : Except Fault (Node κ ν) :=
  match old.left, old.right with
  | .nil, right => closeGap old.color old.path right
  | left, .nil => closeGap old.color old.path left
  | left, .node c l k v r =>
    let elm := leftmost [] c k v r l
    closeGap elm.color (elm.path ++ ⟨.right, old.color, elm.key, elm.val, left⟩ :: old.path)
      elm.right

end Neuropil.Tree.RedBlack
