/-!
# Ordered trees

A `Tree` carries a label at every node. `preorder` lists the labels, a node before what is below it
and siblings in their order; `size` counts them.
-/

namespace Bindery

inductive Tree (α : Type) where
  | node (label : α) (children : List (Tree α))
  deriving Inhabited

namespace Tree

variable {α β : Type}

def label : Tree α → α
  | .node a _ => a

mutual

def preorder : Tree α → List α
  | .node a ts => a :: preorderList ts

def preorderList : List (Tree α) → List α
  | [] => []
  | t :: ts => t.preorder ++ preorderList ts

end

mutual

def size : Tree α → Nat
  | .node _ ts => sizeList ts + 1

def sizeList : List (Tree α) → Nat
  | [] => 0
  | t :: ts => t.size + sizeList ts

end

mutual

def map (f : α → β) : Tree α → Tree β
  | .node a ts => .node (f a) (mapList f ts)

def mapList (f : α → β) : List (Tree α) → List (Tree β)
  | [] => []
  | t :: ts => t.map f :: mapList f ts

end

mutual

theorem preorder_map (f : α → β) : ∀ t : Tree α, (t.map f).preorder = t.preorder.map f
  | .node _ ts => by simp [map, preorder, preorderList_mapList f ts]

theorem preorderList_mapList (f : α → β) :
    ∀ ts : List (Tree α), preorderList (mapList f ts) = (preorderList ts).map f
  | [] => rfl
  | t :: ts => by simp [mapList, preorderList, preorder_map f t, preorderList_mapList f ts]

end

end Tree

end Bindery
