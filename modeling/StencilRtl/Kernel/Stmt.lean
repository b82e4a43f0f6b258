import StencilRtl.Kernel.Expr

/-!
# Kernel statements

The statements that make up the body of a kernel.

Loops, realizations of buffers and producers nest; stores into stencils and
evaluated stream operations do the work at the leaves. As with expressions, the
statements no hardware exists for are representable so that they can be refused
by name.

## Main definitions

* `ForKind`, `Stmt`: Loop annotations and statements.
* `Stmt.kindName`: What a statement is.
* `Stmt.nodes`: A statement and everything inside it, in reading order.
* `Stmt.containsCall`, `Stmt.containsRealize`: Searching a statement.
-/

namespace StencilRtl

/-- Scheduling annotations of loops. -/
inductive ForKind where
  | serial
  | parallel
  | vectorized
  | unrolled
  deriving DecidableEq, Repr, Inhabited

namespace ForKind

/-- All annotations. -/
def all : List ForKind := [.serial, .parallel, .vectorized, .unrolled]

/-- The name of an annotation. -/
def text : ForKind → String
  | .serial => "Serial"
  | .parallel => "Parallel"
  | .vectorized => "Vectorized"
  | .unrolled => "Unrolled"

end ForKind

/-- Statements. -/
inductive Stmt where
  | letIn (name : String) (value : Expr) (body : Stmt)
  | assert (condition message : Expr)
  | producer (name : String) (isProducer : Bool) (body : Stmt)
  | loop (name : String) (min extent : Expr) (kind : ForKind) (body : Stmt)
  | provide (name : String) (values args : List Expr)
  | realize (name : String) (types : List ScalarType) (bounds : List Interval) (body : Stmt)
  | block (stmts : List Stmt)
  | branch (condition : Expr) (thenCase : Stmt) (elseCase : Option Stmt)
  | evaluate (value : Expr)
  | store (name : String) (value index : Expr)
  | allocate (name : String) (type : ScalarType) (extents : List Expr) (body : Stmt)
  | free (name : String)
  deriving Repr, Inhabited

namespace Stmt

mutual

/-- Whether two statements are the same. -/
def same : Stmt → Stmt → Bool
  | .letIn n v b, .letIn n' v' b' => n = n' && v = v' && same b b'
  | .assert c m, .assert c' m' => c = c' && m = m'
  | .producer n p b, .producer n' p' b' => n = n' && p = p' && same b b'
  | .loop n m e k b, .loop n' m' e' k' b' =>
      n = n' && m = m' && e = e' && k = k' && same b b'
  | .provide n vs as, .provide n' vs' as' => n = n' && vs = vs' && as = as'
  | .realize n ts bs b, .realize n' ts' bs' b' => n = n' && ts = ts' && bs = bs' && same b b'
  | .block ss, .block ss' => sameList ss ss'
  | .branch c t e, .branch c' t' e' => c = c' && same t t' && sameOption e e'
  | .evaluate v, .evaluate v' => v = v'
  | .store n v i, .store n' v' i' => n = n' && v = v' && i = i'
  | .allocate n t es b, .allocate n' t' es' b' => n = n' && t = t' && es = es' && same b b'
  | .free n, .free n' => n = n'
  | _, _ => false

/-- Whether two lists hold the same statements. -/
def sameList : List Stmt → List Stmt → Bool
  | [], [] => true
  | a :: as, b :: bs => same a b && sameList as bs
  | _, _ => false

/-- Whether two optional statements are the same. -/
def sameOption : Option Stmt → Option Stmt → Bool
  | none, none => true
  | some a, some b => same a b
  | _, _ => false

end

mutual

theorem same_refl : ∀ s : Stmt, same s s = true
  | .letIn _ _ b => by simp [same, same_refl b]
  | .assert _ _ => by simp [same]
  | .producer _ _ b => by simp [same, same_refl b]
  | .loop _ _ _ _ b => by simp [same, same_refl b]
  | .provide _ _ _ => by simp [same]
  | .realize _ _ _ b => by simp [same, same_refl b]
  | .block ss => by simp [same, sameList_refl ss]
  | .branch _ t e => by simp [same, same_refl t, sameOption_refl e]
  | .evaluate _ => by simp [same]
  | .store _ _ _ => by simp [same]
  | .allocate _ _ _ b => by simp [same, same_refl b]
  | .free _ => by simp [same]

theorem sameList_refl : ∀ ss : List Stmt, sameList ss ss = true
  | [] => rfl
  | s :: ss => by simp [sameList, same_refl s, sameList_refl ss]

theorem sameOption_refl : ∀ s : Option Stmt, sameOption s s = true
  | none => rfl
  | some s => by simp [sameOption, same_refl s]

end

mutual

theorem eq_of_same : ∀ a b : Stmt, same a b = true → a = b
  | .letIn _ _ x, b, h => by
      cases b <;> simp [same] at h
      obtain ⟨⟨rfl, rfl⟩, hx⟩ := h
      rw [eq_of_same x _ hx]
  | .assert _ _, b, h => by cases b <;> simp_all [same]
  | .producer _ _ x, b, h => by
      cases b <;> simp [same] at h
      obtain ⟨⟨rfl, rfl⟩, hx⟩ := h
      rw [eq_of_same x _ hx]
  | .loop _ _ _ _ x, b, h => by
      cases b <;> simp [same] at h
      obtain ⟨⟨⟨⟨rfl, rfl⟩, rfl⟩, rfl⟩, hx⟩ := h
      rw [eq_of_same x _ hx]
  | .provide _ _ _, b, h => by cases b <;> simp_all [same]
  | .realize _ _ _ x, b, h => by
      cases b <;> simp [same] at h
      obtain ⟨⟨⟨rfl, rfl⟩, rfl⟩, hx⟩ := h
      rw [eq_of_same x _ hx]
  | .block ss, b, h => by
      cases b <;> simp [same] at h
      rw [eq_of_sameList ss _ h]
  | .branch _ t e, b, h => by
      cases b <;> simp [same] at h
      obtain ⟨⟨rfl, ht⟩, he⟩ := h
      rw [eq_of_same t _ ht, eq_of_sameOption e _ he]
  | .evaluate _, b, h => by cases b <;> simp_all [same]
  | .store _ _ _, b, h => by cases b <;> simp_all [same]
  | .allocate _ _ _ x, b, h => by
      cases b <;> simp [same] at h
      obtain ⟨⟨⟨rfl, rfl⟩, rfl⟩, hx⟩ := h
      rw [eq_of_same x _ hx]
  | .free _, b, h => by cases b <;> simp_all [same]

theorem eq_of_sameList : ∀ as bs : List Stmt, sameList as bs = true → as = bs
  | [], bs, h => by cases bs <;> simp_all [sameList]
  | a :: as, bs, h => by
      cases bs <;> simp [sameList] at h
      rw [eq_of_same a _ h.1, eq_of_sameList as _ h.2]

theorem eq_of_sameOption : ∀ a b : Option Stmt, sameOption a b = true → a = b
  | none, b, h => by cases b <;> simp_all [sameOption]
  | some a, b, h => by
      cases b <;> simp [sameOption] at h
      rw [eq_of_same a _ h]

end

instance : DecidableEq Stmt := fun a b =>
  if h : same a b = true then .isTrue (eq_of_same a b h)
  else .isFalse fun e => h (e ▸ same_refl a)

/-- What a statement is, in one word. -/
def kindName : Stmt → String
  | .letIn _ _ _ => "LetStmt"
  | .assert _ _ => "AssertStmt"
  | .producer _ _ _ => "ProducerConsumer"
  | .loop _ _ _ _ _ => "For"
  | .provide _ _ _ => "Provide"
  | .realize _ _ _ _ => "Realize"
  | .block _ => "Block"
  | .branch _ _ _ => "IfThenElse"
  | .evaluate _ => "Evaluate"
  | .store _ _ _ => "Store"
  | .allocate _ _ _ _ => "Allocate"
  | .free _ => "Free"

end Stmt

/-- A statement or an expression met on the way through a statement. -/
inductive Node where
  | stmt (s : Stmt)
  | expr (e : Expr)

namespace Node

/-- What a node is, with the name it carries if it is an expression. -/
def label : Node → String
  | .stmt s => s.kindName
  | .expr e => e.label

/-- Whether a node is a call of `name`. -/
def isCallOf (name : String) : Node → Bool
  | .stmt _ => false
  | .expr e => e.isCallOf name

/-- Whether a node realizes a buffer. -/
def isRealize : Node → Bool
  | .stmt (.realize _ _ _ _) => true
  | _ => false

end Node

namespace Stmt

/-- Everything inside an expression, as nodes. -/
def exprNodes (e : Expr) : List Node := e.nodes.map .expr

/-- Everything inside some expressions, as nodes. -/
def exprsNodes (es : List Expr) : List Node := (Expr.nodesOfList es).map .expr

mutual

/-- A statement and everything inside it, in reading order. -/
def nodes : Stmt → List Node
  | s@(.letIn _ value body) => .stmt s :: (exprNodes value ++ body.nodes)
  | s@(.assert condition message) => .stmt s :: (exprNodes condition ++ exprNodes message)
  | s@(.producer _ _ body) => .stmt s :: body.nodes
  | s@(.loop _ min extent _ body) =>
      .stmt s :: (exprNodes min ++ exprNodes extent ++ body.nodes)
  | s@(.provide _ values args) => .stmt s :: (exprsNodes values ++ exprsNodes args)
  | s@(.realize _ _ _ body) => .stmt s :: body.nodes
  | s@(.block stmts) => .stmt s :: nodesOfList stmts
  | s@(.branch condition thenCase elseCase) =>
      .stmt s :: (exprNodes condition ++ thenCase.nodes ++ nodesOfOption elseCase)
  | s@(.evaluate value) => .stmt s :: exprNodes value
  | s@(.store _ value index) => .stmt s :: (exprNodes value ++ exprNodes index)
  | s@(.allocate _ _ extents body) => .stmt s :: (exprsNodes extents ++ body.nodes)
  | s@(.free _) => [.stmt s]

/-- Everything inside a list of statements, in reading order. -/
def nodesOfList : List Stmt → List Node
  | [] => []
  | s :: rest => s.nodes ++ nodesOfList rest

/-- Everything inside an optional statement. -/
def nodesOfOption : Option Stmt → List Node
  | none => []
  | some s => s.nodes

end

/-- Whether a statement calls `name` anywhere. -/
def containsCall (s : Stmt) (name : String) : Bool :=
  s.nodes.any (Node.isCallOf name)

/-- Whether a statement realizes a buffer anywhere. -/
def containsRealize (s : Stmt) : Bool :=
  s.nodes.any Node.isRealize

/-- Whether a statement reads a stream anywhere. -/
def containsReadStream (s : Stmt) : Bool := s.containsCall "read_stream"

/-- Whether a statement writes a stream anywhere. -/
def containsWriteStream (s : Stmt) : Bool := s.containsCall "write_stream"

end Stmt

end StencilRtl
