import Rubify.Tree.Walk
import Mathlib.Data.List.Basic

/-!
# Document order

What a walk meets, in the order of the document: nodes and the texts of comments, whose own children
do not count (`Node.visits`). A walk has a part of that list in front of it (`Walk.todo`): what is
left at the innermost node entered, then at the node around it, and so on up to the root.

`Walk.taking`, `Walk.leaving` and `Walk.finishing` are what an operation goes past when it takes a
node, leaves one, or ends the walk.
-/

namespace Rubify

/-- What a walk can meet. -/
inductive Entry
  | node (n : Node)
  | comment (text : String)

/-- The text of a comment. -/
def Entry.comment? : Entry → Option String
  | .node _ => none
  | .comment text => some text

namespace Node

mutual

/-- The tree in document order. -/
def visits : Node → List Entry
  | ⟨kind, payload, children⟩ =>
    if isComment ⟨kind, payload, children⟩ then [.comment (text ⟨kind, payload, children⟩)]
    else .node ⟨kind, payload, children⟩ :: visitsAll children

/-- Several trees in document order. -/
def visitsAll : List Node → List Entry
  | [] => []
  | n :: rest => n.visits ++ visitsAll rest

end

mutual

/-- The texts of the comments of the tree in document order. -/
def commentTexts : Node → List String
  | ⟨kind, payload, children⟩ =>
    if isComment ⟨kind, payload, children⟩ then [text ⟨kind, payload, children⟩]
    else commentTextsAll children

/-- The texts of the comments of several trees. -/
def commentTextsAll : List Node → List String
  | [] => []
  | n :: rest => n.commentTexts ++ commentTextsAll rest

end

theorem visits_of_comment {n : Node} (h : n.isComment = true) : n.visits = [.comment n.text] := by
  cases n
  rw [visits, if_pos h]

theorem visits_of_not {n : Node} (h : n.isComment = false) :
    n.visits = .node n :: visitsAll n.children := by
  cases n
  rw [visits, if_neg (Bool.eq_false_iff.mp h)]

theorem commentTexts_of_comment {n : Node} (h : n.isComment = true) :
    n.commentTexts = [n.text] := by
  cases n
  rw [commentTexts, if_pos h]

theorem commentTexts_of_not {n : Node} (h : n.isComment = false) :
    n.commentTexts = commentTextsAll n.children := by
  cases n
  rw [commentTexts, if_neg (Bool.eq_false_iff.mp h)]

mutual

/-- The comments met are the comments of the tree. -/
theorem filterMap_visits : ∀ n : Node, n.visits.filterMap Entry.comment? = n.commentTexts
  | ⟨kind, payload, children⟩ => by
    rw [visits, commentTexts]
    split
    · rfl
    · exact filterMap_visitsAll children

theorem filterMap_visitsAll :
    ∀ ns : List Node, (visitsAll ns).filterMap Entry.comment? = commentTextsAll ns
  | [] => rfl
  | n :: rest => by
    rw [visitsAll, commentTextsAll, List.filterMap_append, filterMap_visits n,
      filterMap_visitsAll rest]

end

/-- The comments at the front come first. -/
theorem visitsAll_skipComments (left : List Node) :
    visitsAll left =
      (skipComments left).1.map Entry.comment ++ visitsAll (skipComments left).2 := by
  induction left with
  | nil => rfl
  | cons n rest ih =>
    rw [skipComments]
    split
    · rename_i h
      rw [visitsAll, visits_of_comment h, ih]
      rfl
    · rfl

theorem commentTextsAll_skipComments (left : List Node) :
    commentTextsAll left = (skipComments left).1 ++ commentTextsAll (skipComments left).2 := by
  induction left with
  | nil => rfl
  | cons n rest ih =>
    rw [skipComments]
    split
    · rename_i h
      rw [commentTextsAll, commentTexts_of_comment h, ih]
      rfl
    · rfl

/-- The first node behind the comments is not a comment. -/
theorem isComment_of_skipComments {n : Node} {rest : List Node} :
    ∀ {left : List Node}, (skipComments left).2 = n :: rest → n.isComment = false
  | m :: left, h => by
    rw [skipComments] at h
    split at h
    · exact isComment_of_skipComments h
    · rename_i hm
      cases h
      exact Bool.eq_false_iff.mpr hm

/-- A sibling list that can be left holds comments only. -/
theorem skipComments_of_leave {parent : String} {left : List Node} {texts : List String}
    (h : Node.leave parent left = .ok texts) : skipComments left = (texts, []) := by
  unfold Node.leave at h
  split at h
  · rename_i he
    cases h
    exact he
  · cases h

theorem visitsAll_of_leave {parent : String} {left : List Node} {texts : List String}
    (h : Node.leave parent left = .ok texts) : visitsAll left = texts.map Entry.comment := by
  rw [visitsAll_skipComments left, skipComments_of_leave h]
  exact List.append_nil _

theorem commentTextsAll_of_leave {parent : String} {left : List Node} {texts : List String}
    (h : Node.leave parent left = .ok texts) : commentTextsAll left = texts := by
  rw [commentTextsAll_skipComments left, skipComments_of_leave h]
  exact List.append_nil _

end Node

namespace Walk

/-- What is in front of the walk once the innermost node entered has been left. -/
def beneath (w : Walk) : List Entry :=
  match w.stack with
  | [] => []
  | _ :: below => below.flatMap (fun c => Node.visitsAll c.left) ++ Node.visitsAll w.root.left

/-- What is in front of the walk, in document order. -/
def todo (w : Walk) : List Entry :=
  w.stack.flatMap (fun c => Node.visitsAll c.left) ++ Node.visitsAll w.root.left

theorem todo_start (tree : Node) : (start tree).todo = tree.visits := by
  simp [todo, start, Node.visitsAll]

theorem todo_eq (w : Walk) : w.todo = Node.visitsAll w.top.left ++ w.beneath := by
  obtain ⟨root, stack, comments⟩ := w
  cases stack with
  | nil => simp [todo, top, beneath]
  | cons c below => simp [todo, top, beneath]

theorem todo_withLeft (w : Walk) (left : List Node) :
    (w.withLeft left).todo = Node.visitsAll left ++ w.beneath := by
  obtain ⟨root, stack, comments⟩ := w
  cases stack with
  | nil => simp [todo, withLeft, beneath]
  | cons c below => simp [todo, withLeft, beneath]

theorem comments_withLeft (w : Walk) (left : List Node) :
    (w.withLeft left).comments = w.comments := by
  unfold withLeft
  split <;> rfl

/-- What taking the next node meets: the comments in front of it, and the node. -/
def taking (w : Walk) : List Entry :=
  match Node.skipComments w.top.left with
  | (texts, n :: _) => texts.map .comment ++ [.node n]
  | (_, []) => []

/-- What leaving the innermost node meets: the comments left in it. -/
def leaving (w : Walk) : List Entry :=
  match w.stack with
  | [] => []
  | c :: _ => (Node.skipComments c.left).1.map .comment

/-- What ending the walk meets: the comments left behind the topmost node. -/
def finishing (w : Walk) : List Entry :=
  (Node.skipComments w.root.left).1.map .comment

end Walk

end Rubify
