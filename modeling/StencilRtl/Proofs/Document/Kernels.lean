import StencilRtl.Proofs.Document.Expressions

/-!
# Kernels Read Back

The documents of a kernel, and the kernel each of them is read as.

Seven fields have defaults: the kind of a call, the annotation of a loop, the other case
of a branch, and the bounds, the depth, the extents of the storage and the direction of
an argument. Each of them may be left out wherever it holds its default, and every choice
of the ones to leave out is a document of the kernel. The bounds of a realization have no
default although they have the same name.

The body of a kernel has to be readable and must not nest too deeply, and both are asked
of the document that is at hand. Leaving fields out makes no document deeper, so it is
enough to know the depth of the full one.

## Main definitions

* `Stmt.HasDocument`, `Kernel.HasDocument`: What statements and kernels may be written as.

## Theorems

* `Stmt.read?_document`: Every document of a statement is read as the statement.
* `Stmt.abridges_of_hasDocument`: Every document can be read and is no deeper than the
  full one.
* `Kernel.ofText_documents`: The text of a kernel, and of any of its documents, is read as
  the kernel.
-/

namespace StencilRtl

open Json (written)

/-! ## Names and intervals -/

theorem ForKind.ofJson?_text (k : ForKind) : ForKind.ofJson? (.text k.text) = some k := by
  cases k <;> rfl

theorem StencilKind.ofJson?_text (k : StencilKind) :
    StencilKind.ofJson? (.text k.text) = some k := by
  cases k <;> rfl

theorem Interval.ofJson?_toJson (r : Interval) : Interval.ofJson? r.toJson = some r := by
  have hfields := Json.fields?_written ["min", "extent"]
    [("min", some (.int r.min.toInt)), ("extent", some (.int r.extent.toInt))]
    rfl (by decide)
  simp only [Json.written_some, Json.written_nil] at hfields
  rw [toJson, ofJson?, hfields]
  simp [Json.required, Json.signed64?_int]

theorem Interval.abridges_toJson (r : Interval) : Json.Abridges r.toJson r.toJson := by
  have hfields : List.Forall₂ (fun full field => Json.FieldAbridges full.2 field.2)
      [("min", .int r.min.toInt), ("extent", .int r.extent.toInt)]
      [("min", some (.int r.min.toInt)), ("extent", some (.int r.extent.toInt))] :=
    .cons (.kept (Json.abridges_int _)) (.cons (.kept (Json.abridges_int _)) .nil)
  exact Json.abridges_object hfields

namespace Json

/-- Items that are read back one by one are read back as a list. -/
theorem list?_map {α : Type} {read : Json → Option α} {document : α → Json}
    (hread : ∀ a, read (document a) = some a) (values : List α) :
    list? read (.list (values.map document)) = some values := by
  rw [list?]
  induction values with
  | nil => rfl
  | cons a values ih =>
      rw [List.map_cons, List.mapM_cons, hread, ih]
      rfl

theorem abridges_map {α : Type} {document : α → Json}
    (h : ∀ a, Abridges (document a) (document a)) (values : List α) :
    Abridges (.list (values.map document)) (.list (values.map document)) :=
  abridges_list (List.forall₂_same.mpr fun j hj => by
    rcases List.mem_map.mp hj with ⟨a, _, rfl⟩
    exact h a)

end Json

namespace Stmt

mutual

/-- The documents of a statement without floating point constants. The annotation of a
    serial loop may be left out, and the other case of a branch that has none. -/
inductive HasDocument : Stmt → Json → Prop where
  | letIn (n : String) {v : Expr} {b : Stmt} {jv jb : Json} (hv : v.HasDocument jv)
      (hb : HasDocument b jb) :
      HasDocument (.letIn n v b)
        (.tagged "LetStmt"
          (written [("name", some (.text n)), ("value", some jv), ("body", some jb)]))
  | assert {c m : Expr} {jc jm : Json} (hc : c.HasDocument jc) (hm : m.HasDocument jm) :
      HasDocument (.assert c m)
        (.tagged "AssertStmt" (written [("condition", some jc), ("message", some jm)]))
  | producer (n : String) (p : Bool) {b : Stmt} {jb : Json} (hb : HasDocument b jb) :
      HasDocument (.producer n p b)
        (.tagged "ProducerConsumer"
          (written [("name", some (.text n)), ("is_producer", some (.bool p)),
            ("body", some jb)]))
  | loop (n : String) {m e : Expr} {k : ForKind} {b : Stmt} {jm je jb : Json}
      {jk : Option Json} (hm : m.HasDocument jm) (he : e.HasDocument je)
      (hk : Json.Defaults .serial k (.text k.text) jk) (hb : HasDocument b jb) :
      HasDocument (.loop n m e k b)
        (.tagged "For"
          (written [("name", some (.text n)), ("min", some jm), ("extent", some je),
            ("for_type", jk), ("body", some jb)]))
  | provide (n : String) {vs as : List Expr} {jvs jas : List Json}
      (hvs : Expr.ListHasDocuments vs jvs) (has : Expr.ListHasDocuments as jas) :
      HasDocument (.provide n vs as)
        (.tagged "Provide"
          (written [("name", some (.text n)), ("values", some (.list jvs)),
            ("args", some (.list jas))]))
  | realize (n : String) (ts : List ScalarType) (bs : List Interval) {b : Stmt} {jb : Json}
      (hb : HasDocument b jb) :
      HasDocument (.realize n ts bs b)
        (.tagged "Realize"
          (written [("name", some (.text n)),
            ("types", some (.list (ts.map ScalarType.toJson))),
            ("bounds", some (.list (bs.map Interval.toJson))), ("body", some jb)]))
  | block {ss : List Stmt} {jss : List Json} (hss : ListHasDocuments ss jss) :
      HasDocument (.block ss) (.tagged "Block" (written [("stmts", some (.list jss))]))
  | branch {c : Expr} {t : Stmt} {e : Option Stmt} {jc jt : Json} {je : Option Json}
      (hc : c.HasDocument jc) (ht : HasDocument t jt) (he : CaseHasDocument e je) :
      HasDocument (.branch c t e)
        (.tagged "IfThenElse"
          (written [("condition", some jc), ("then_case", some jt), ("else_case", je)]))
  | evaluate {v : Expr} {jv : Json} (hv : v.HasDocument jv) :
      HasDocument (.evaluate v) (.tagged "Evaluate" (written [("value", some jv)]))
  | store (n : String) {v i : Expr} {jv ji : Json} (hv : v.HasDocument jv)
      (hi : i.HasDocument ji) :
      HasDocument (.store n v i)
        (.tagged "Store"
          (written [("name", some (.text n)), ("value", some jv), ("index", some ji)]))
  | allocate (n : String) (t : ScalarType) {es : List Expr} {b : Stmt} {jes : List Json}
      {jb : Json} (hes : Expr.ListHasDocuments es jes) (hb : HasDocument b jb) :
      HasDocument (.allocate n t es b)
        (.tagged "Allocate"
          (written [("name", some (.text n)), ("ty", some t.toJson),
            ("extents", some (.list jes)), ("body", some jb)]))
  | free (n : String) : HasDocument (.free n) (.tagged "Free" (written [("name", some (.text n))]))

/-- The documents of a list of statements. -/
inductive ListHasDocuments : List Stmt → List Json → Prop where
  | nil : ListHasDocuments [] []
  | cons {s : Stmt} {j : Json} {ss : List Stmt} {js : List Json} (hs : HasDocument s j)
      (hss : ListHasDocuments ss js) : ListHasDocuments (s :: ss) (j :: js)

/-- What may be written of the other case of a branch. -/
inductive CaseHasDocument : Option Stmt → Option Json → Prop where
  | omitted : CaseHasDocument none none
  | null : CaseHasDocument none (some .null)
  | some {s : Stmt} {j : Json} (hs : HasDocument s j) : CaseHasDocument (some s) (some j)

end

/-! ## Reading -/

theorem fieldNames_proper :
    ∀ tag ∈ tags, (fieldNames tag).Nodup ∧ "node" ∉ fieldNames tag := by decide

/-- No document of a statement is null. -/
theorem orNull?_document {read : Json → Option Stmt} {s : Stmt} {j : Json}
    (h : HasDocument s j) : orNull? read j = (read j).map some := by
  cases h <;> rfl

mutual

/-- Every document of a statement is read as the statement, with a bound that its nesting
    stays below. -/
theorem read?_document : ∀ {s : Stmt} {j : Json}, HasDocument s j → ∀ {levels : Nat}
    (inner : Bool), j.nesting < levels → read? levels inner j = some s
  | _, _, @HasDocument.letIn n _ _ jv jb hv hb, levels + 1, inner, hlevels => by
      have hbody := read?_document hb true
        (Json.nesting_lt_levels "body" (by simp) hlevels)
      rcases Json.variant?_written fieldNames_proper "LetStmt"
        [("name", some (.text n)), ("value", some jv), ("body", some jb)]
        (by decide) rfl inner with ⟨htag, hfields⟩
      rw [read?]
      refine Option.bind_eq_some_iff.mpr ⟨_, htag, Option.bind_eq_some_iff.mpr ⟨_, hfields, ?_⟩⟩
      simp [Json.required, Json.text?, Expr.ofInnerJson?_document hv, hbody]
  | _, _, @HasDocument.assert _ _ jc jm hc hm, levels + 1, inner, _ => by
      rcases Json.variant?_written fieldNames_proper "AssertStmt"
        [("condition", some jc), ("message", some jm)]
        (by decide) rfl inner with ⟨htag, hfields⟩
      rw [read?]
      refine Option.bind_eq_some_iff.mpr ⟨_, htag, Option.bind_eq_some_iff.mpr ⟨_, hfields, ?_⟩⟩
      simp [Json.required, Expr.ofInnerJson?_document hc, Expr.ofInnerJson?_document hm]
  | _, _, @HasDocument.producer n p _ jb hb, levels + 1, inner, hlevels => by
      have hbody := read?_document hb true
        (Json.nesting_lt_levels "body" (by simp) hlevels)
      rcases Json.variant?_written fieldNames_proper "ProducerConsumer"
        [("name", some (.text n)), ("is_producer", some (.bool p)), ("body", some jb)]
        (by decide) rfl inner with ⟨htag, hfields⟩
      rw [read?]
      refine Option.bind_eq_some_iff.mpr ⟨_, htag, Option.bind_eq_some_iff.mpr ⟨_, hfields, ?_⟩⟩
      simp [Json.required, Json.text?, Json.bool?, hbody]
  | _, _, @HasDocument.loop n _ _ _ _ jm je jb jk hm he hk hb, levels + 1, inner,
      hlevels => by
      have hbody := read?_document hb true
        (Json.nesting_lt_levels "body" (by simp) hlevels)
      rcases Json.variant?_written fieldNames_proper "For"
        [("name", some (.text n)), ("min", some jm), ("extent", some je),
          ("for_type", jk), ("body", some jb)]
        (by decide) rfl inner with ⟨htag, hfields⟩
      rw [read?]
      refine Option.bind_eq_some_iff.mpr ⟨_, htag, Option.bind_eq_some_iff.mpr ⟨_, hfields, ?_⟩⟩
      simp [Json.required, Json.text?, Expr.ofInnerJson?_document hm, Expr.ofInnerJson?_document he,
        hk.read (ForKind.ofJson?_text _), hbody]
  | _, _, @HasDocument.provide n _ _ jvs jas hvs has, levels + 1, inner, _ => by
      rcases Json.variant?_written fieldNames_proper "Provide"
        [("name", some (.text n)), ("values", some (.list jvs)),
          ("args", some (.list jas))]
        (by decide) rfl inner with ⟨htag, hfields⟩
      rw [read?]
      refine Option.bind_eq_some_iff.mpr ⟨_, htag, Option.bind_eq_some_iff.mpr ⟨_, hfields, ?_⟩⟩
      simp [Json.required, Json.text?, Json.list?, Expr.mapM_ofInnerJson?_documents hvs,
        Expr.mapM_ofInnerJson?_documents has]
  | _, _, @HasDocument.realize n ts bs _ jb hb, levels + 1, inner, hlevels => by
      have hbody := read?_document hb true
        (Json.nesting_lt_levels "body" (by simp) hlevels)
      rcases Json.variant?_written fieldNames_proper "Realize"
        [("name", some (.text n)), ("types", some (.list (ts.map ScalarType.toJson))),
          ("bounds", some (.list (bs.map Interval.toJson))), ("body", some jb)]
        (by decide) rfl inner with ⟨htag, hfields⟩
      rw [read?]
      refine Option.bind_eq_some_iff.mpr ⟨_, htag, Option.bind_eq_some_iff.mpr ⟨_, hfields, ?_⟩⟩
      simp [Json.required, Json.text?, Json.list?_map (ScalarType.ofJson?_toJson true),
        Json.list?_map Interval.ofJson?_toJson, hbody]
  | _, _, @HasDocument.block _ jss hss, levels + 1, inner, hlevels => by
      have hstmts := mapM_read?_documents hss
        (Json.nestingOfItems_lt_levels "stmts" (by simp) hlevels)
      rcases Json.variant?_written fieldNames_proper "Block"
        [("stmts", some (.list jss))]
        (by decide) rfl inner with ⟨htag, hfields⟩
      rw [read?]
      refine Option.bind_eq_some_iff.mpr ⟨_, htag, Option.bind_eq_some_iff.mpr ⟨_, hfields, ?_⟩⟩
      simp [Json.required, Json.list?, hstmts]
  | _, _, @HasDocument.branch _ _ _ jc jt je hc ht he, levels + 1, inner, hlevels => by
      have hthen := read?_document ht true
        (Json.nesting_lt_levels "then_case" (by simp) hlevels)
      have helse := optional_case he fun hj =>
        Json.nesting_lt_levels "else_case" (by simp [hj]) hlevels
      rcases Json.variant?_written fieldNames_proper "IfThenElse"
        [("condition", some jc), ("then_case", some jt), ("else_case", je)]
        (by decide) rfl inner with ⟨htag, hfields⟩
      rw [read?]
      refine Option.bind_eq_some_iff.mpr ⟨_, htag, Option.bind_eq_some_iff.mpr ⟨_, hfields, ?_⟩⟩
      simp [Json.required, Expr.ofInnerJson?_document hc, hthen, helse]
  | _, _, @HasDocument.evaluate _ jv hv, levels + 1, inner, _ => by
      rcases Json.variant?_written fieldNames_proper "Evaluate"
        [("value", some jv)]
        (by decide) rfl inner with ⟨htag, hfields⟩
      rw [read?]
      refine Option.bind_eq_some_iff.mpr ⟨_, htag, Option.bind_eq_some_iff.mpr ⟨_, hfields, ?_⟩⟩
      simp [Json.required, Expr.ofInnerJson?_document hv]
  | _, _, @HasDocument.store n _ _ jv ji hv hi, levels + 1, inner, _ => by
      rcases Json.variant?_written fieldNames_proper "Store"
        [("name", some (.text n)), ("value", some jv), ("index", some ji)]
        (by decide) rfl inner with ⟨htag, hfields⟩
      rw [read?]
      refine Option.bind_eq_some_iff.mpr ⟨_, htag, Option.bind_eq_some_iff.mpr ⟨_, hfields, ?_⟩⟩
      simp [Json.required, Json.text?, Expr.ofInnerJson?_document hv, Expr.ofInnerJson?_document hi]
  | _, _, @HasDocument.allocate n t _ _ jes jb hes hb, levels + 1, inner, hlevels => by
      have hbody := read?_document hb true
        (Json.nesting_lt_levels "body" (by simp) hlevels)
      rcases Json.variant?_written fieldNames_proper "Allocate"
        [("name", some (.text n)), ("ty", some t.toJson), ("extents", some (.list jes)),
          ("body", some jb)]
        (by decide) rfl inner with ⟨htag, hfields⟩
      rw [read?]
      refine Option.bind_eq_some_iff.mpr ⟨_, htag, Option.bind_eq_some_iff.mpr ⟨_, hfields, ?_⟩⟩
      simp [Json.required, Json.text?, ScalarType.ofJson?_toJson, Json.list?,
        Expr.mapM_ofInnerJson?_documents hes, hbody]
  | _, _, .free n, levels + 1, inner, _ => by
      rcases Json.variant?_written fieldNames_proper "Free"
        [("name", some (.text n))]
        (by decide) rfl inner with ⟨htag, hfields⟩
      rw [read?]
      refine Option.bind_eq_some_iff.mpr ⟨_, htag, Option.bind_eq_some_iff.mpr ⟨_, hfields, ?_⟩⟩
      simp [Json.required, Json.text?]

/-- Statements in a list are read one by one. -/
theorem mapM_read?_documents : ∀ {ss : List Stmt} {js : List Json}, ListHasDocuments ss js →
    ∀ {levels : Nat}, Json.nestingOfItems js < levels → js.mapM (read? levels true) = some ss
  | _, _, .nil, _, _ => rfl
  | _, _, .cons hs hss, _, hlevels => by
      rw [Json.nestingOfItems] at hlevels
      rw [List.mapM_cons, read?_document hs true (by omega), mapM_read?_documents hss (by omega)]
      rfl

/-- The other case of a branch is read, whether it is written or not. -/
theorem optional_case : ∀ {e : Option Stmt} {field : Option Json}, CaseHasDocument e field →
    ∀ {levels : Nat}, (∀ {j}, field = some j → j.nesting < levels) →
    Json.optional none (orNull? (read? levels true)) field = some e
  | _, _, .omitted, _, _ => rfl
  | _, _, .null, _, _ => rfl
  | _, _, .some hs, _, hlevels => by
      rw [Json.optional, orNull?_document hs, read?_document hs true (hlevels rfl)]
      rfl

end

/-! ## Legibility -/

mutual

/-- Every document of a statement can be read and is no deeper than the full one. -/
theorem abridges_of_hasDocument : ∀ {s : Stmt} {j : Json}, HasDocument s j →
    Json.Abridges s.toJson j
  | _, _, .letIn n hv hb =>
      Json.abridges_tagged
        (.cons (.kept (Json.abridges_text n))
          (.cons (.kept (Expr.abridges_of_hasDocument hv))
            (.cons (.kept (abridges_of_hasDocument hb)) .nil)))
  | _, _, .assert hc hm =>
      Json.abridges_tagged
        (.cons (.kept (Expr.abridges_of_hasDocument hc))
          (.cons (.kept (Expr.abridges_of_hasDocument hm)) .nil))
  | _, _, .producer n p hb =>
      Json.abridges_tagged
        (.cons (.kept (Json.abridges_text n)) (.cons (.kept (Json.abridges_bool p))
          (.cons (.kept (abridges_of_hasDocument hb)) .nil)))
  | _, _, .loop n hm he hk hb =>
      Json.abridges_tagged
        (.cons (.kept (Json.abridges_text n))
          (.cons (.kept (Expr.abridges_of_hasDocument hm))
            (.cons (.kept (Expr.abridges_of_hasDocument he))
              (.cons (hk.abridges (Json.abridges_text _))
                (.cons (.kept (abridges_of_hasDocument hb)) .nil)))))
  | _, _, .provide n hvs has =>
      Json.abridges_tagged
        (.cons (.kept (Json.abridges_text n))
          (.cons (.kept (Json.abridges_list (Expr.abridge_of_listHasDocuments hvs)))
            (.cons (.kept (Json.abridges_list (Expr.abridge_of_listHasDocuments has))) .nil)))
  | _, _, .realize n ts bs hb =>
      Json.abridges_tagged
        (.cons (.kept (Json.abridges_text n))
          (.cons (.kept (Json.abridges_map ScalarType.abridges_toJson ts))
            (.cons (.kept (Json.abridges_map Interval.abridges_toJson bs))
              (.cons (.kept (abridges_of_hasDocument hb)) .nil))))
  | _, _, .block hss =>
      Json.abridges_tagged
        (.cons (.kept (Json.abridges_list (abridge_of_listHasDocuments hss))) .nil)
  | _, _, .branch hc ht he =>
      Json.abridges_tagged
        (.cons (.kept (Expr.abridges_of_hasDocument hc))
          (.cons (.kept (abridges_of_hasDocument ht))
            (.cons (abridges_of_caseHasDocument he) .nil)))
  | _, _, .evaluate hv =>
      Json.abridges_tagged (.cons (.kept (Expr.abridges_of_hasDocument hv)) .nil)
  | _, _, .store n hv hi =>
      Json.abridges_tagged
        (.cons (.kept (Json.abridges_text n))
          (.cons (.kept (Expr.abridges_of_hasDocument hv))
            (.cons (.kept (Expr.abridges_of_hasDocument hi)) .nil)))
  | _, _, .allocate n t hes hb =>
      Json.abridges_tagged
        (.cons (.kept (Json.abridges_text n)) (.cons (.kept t.abridges_toJson)
          (.cons (.kept (Json.abridges_list (Expr.abridge_of_listHasDocuments hes)))
            (.cons (.kept (abridges_of_hasDocument hb)) .nil))))
  | _, _, .free n => Json.abridges_tagged (.cons (.kept (Json.abridges_text n)) .nil)

theorem abridge_of_listHasDocuments : ∀ {ss : List Stmt} {js : List Json},
    ListHasDocuments ss js → List.Forall₂ Json.Abridges (listToJson ss) js
  | _, _, .nil => .nil
  | _, _, .cons hs hss => .cons (abridges_of_hasDocument hs) (abridge_of_listHasDocuments hss)

theorem abridges_of_caseHasDocument : ∀ {e : Option Stmt} {field : Option Json},
    CaseHasDocument e field → Json.FieldAbridges (optionToJson e) field
  | _, _, .omitted => .omitted
  | _, _, .null => .kept Json.abridges_null
  | _, _, .some hs => .kept (abridges_of_hasDocument hs)

end

/-! ## The full document -/

/-- There is no floating point constant among some nodes. -/
def FloatFree (nodes : List Node) : Prop := ∀ t x, Node.expr (.floatImm t x) ∉ nodes

theorem FloatFree.mono {ns ms : List Node} (h : FloatFree ns) (hsub : ∀ n ∈ ms, n ∈ ns) :
    FloatFree ms :=
  fun t x hx => h t x (hsub _ hx)

theorem FloatFree.expr {ns : List Node} {e : Expr} (h : FloatFree ns)
    (hsub : ∀ n ∈ exprNodes e, n ∈ ns) : e.HasDocument e.toJson :=
  e.hasDocument_toJson fun t x hx => h t x (hsub _ (List.mem_map_of_mem hx))

theorem FloatFree.exprs {ns : List Node} {es : List Expr} (h : FloatFree ns)
    (hsub : ∀ n ∈ exprsNodes es, n ∈ ns) : Expr.ListHasDocuments es (Expr.listToJson es) :=
  Expr.listHasDocuments_toJson es fun t x hx => h t x (hsub _ (List.mem_map_of_mem hx))

mutual

/-- The full document of a statement is one of its documents. -/
theorem hasDocument_toJson : ∀ (s : Stmt), FloatFree s.nodes → HasDocument s s.toJson
  | .letIn n v b, h =>
      .letIn n (h.expr (by simp +contextual [nodes]))
        (hasDocument_toJson b (h.mono (by simp +contextual [nodes])))
  | .assert c m, h =>
      .assert (h.expr (by simp +contextual [nodes])) (h.expr (by simp +contextual [nodes]))
  | .producer n p b, h =>
      .producer n p (hasDocument_toJson b (h.mono (by simp +contextual [nodes])))
  | .loop n m e k b, h =>
      .loop n (h.expr (by simp +contextual [nodes])) (h.expr (by simp +contextual [nodes])) .kept
        (hasDocument_toJson b (h.mono (by simp +contextual [nodes])))
  | .provide n vs as, h =>
      .provide n (h.exprs (by simp +contextual [nodes])) (h.exprs (by simp +contextual [nodes]))
  | .realize n ts bs b, h =>
      .realize n ts bs (hasDocument_toJson b (h.mono (by simp +contextual [nodes])))
  | .block ss, h => .block (listHasDocuments_toJson ss (h.mono (by simp +contextual [nodes])))
  | .branch c t e, h =>
      .branch (h.expr (by simp +contextual [nodes]))
        (hasDocument_toJson t (h.mono (by simp +contextual [nodes])))
        (caseHasDocument_toJson e (h.mono (by simp +contextual [nodes])))
  | .evaluate v, h => .evaluate (h.expr (by simp +contextual [nodes]))
  | .store n v i, h =>
      .store n (h.expr (by simp +contextual [nodes])) (h.expr (by simp +contextual [nodes]))
  | .allocate n t es b, h =>
      .allocate n t (h.exprs (by simp +contextual [nodes]))
        (hasDocument_toJson b (h.mono (by simp +contextual [nodes])))
  | .free n, _ => .free n

theorem listHasDocuments_toJson : ∀ (ss : List Stmt), FloatFree (nodesOfList ss) →
    ListHasDocuments ss (listToJson ss)
  | [], _ => .nil
  | s :: ss, h =>
      .cons (hasDocument_toJson s (h.mono (by simp +contextual [nodesOfList])))
        (listHasDocuments_toJson ss (h.mono (by simp +contextual [nodesOfList])))

theorem caseHasDocument_toJson : ∀ (e : Option Stmt), FloatFree (nodesOfOption e) →
    CaseHasDocument e (some (optionToJson e))
  | none, _ => .null
  | some s, h => .some (hasDocument_toJson s (h.mono (by simp +contextual [nodesOfOption])))

end

end Stmt

/-! ## Arguments and kernels -/

/-- The documents of a shape. Bounds, depth and extents of the storage may be left out. -/
inductive StencilType.HasDocument (t : StencilType) : Json → Prop where
  | record {jbounds jdepth jextents : Option Json}
      (hbounds : Json.Defaults [] t.bounds (.list (t.bounds.map Interval.toJson)) jbounds)
      (hdepth : Json.Defaults 1 t.depth (.nat t.depth.toNat) jdepth)
      (hextents : Json.Defaults [] t.storeExtents
        (.list (t.storeExtents.map fun e => .nat e.toNat)) jextents) :
      HasDocument t
        (.object
          (written [("kind", some (.text t.kind.text)), ("elem", some t.elem.toJson),
            ("bounds", jbounds), ("depth", jdepth), ("store_extents", jextents)]))

/-- The documents of an argument. That it is no output may be left out. -/
inductive Argument.HasDocument (a : Argument) : Json → Prop where
  | record {joutput : Option Json} {jtype : Json}
      (houtput : Json.Defaults false a.isOutput (.bool a.isOutput) joutput)
      (htype : a.stencilType.HasDocument jtype) :
      HasDocument a
        (.object
          (written [("name", some (.text a.name)), ("is_stream", some (.bool a.isStream)),
            ("is_output", joutput), ("stencil_type", some jtype)]))

/-- The documents of a kernel. -/
inductive Kernel.HasDocument (k : Kernel) : Json → Prop where
  | record {jargs : List Json} {jbody : Json}
      (hargs : List.Forall₂ Argument.HasDocument k.args jargs)
      (hbody : k.body.HasDocument jbody) :
      HasDocument k
        (.object
          (written [("name", some (.text k.name)), ("args", some (.list jargs)),
            ("body", some jbody)]))

namespace StencilType

variable {t : StencilType} {j : Json}

theorem ofJson?_document (h : t.HasDocument j) : ofJson? j = some t := by
  cases h with
  | @record jbounds jdepth jextents hbounds hdepth hextents =>
      rw [ofJson?, Json.fields?_written
        ["kind", "elem", "bounds", "depth", "store_extents"]
        [("kind", some (.text t.kind.text)), ("elem", some t.elem.toJson),
            ("bounds", jbounds), ("depth", jdepth), ("store_extents", jextents)] rfl (by decide)]
      simp [Json.required, StencilKind.ofJson?_text, ScalarType.ofJson?_toJson,
        hbounds.read (Json.list?_map Interval.ofJson?_toJson _), hdepth.read (Json.word64?_nat _),
        hextents.read (Json.list?_map Json.word64?_nat _)]

theorem abridges_of_hasDocument (h : t.HasDocument j) : Json.Abridges t.toJson j := by
  cases h with
  | record hbounds hdepth hextents =>
      exact Json.abridges_object
        (.cons (.kept (Json.abridges_text _)) (.cons (.kept t.elem.abridges_toJson)
          (.cons (hbounds.abridges (Json.abridges_map Interval.abridges_toJson _))
            (.cons (hdepth.abridges (Json.abridges_nat t.depth.toNat_lt))
              (.cons (hextents.abridges
                (Json.abridges_map (fun e => Json.abridges_nat e.toNat_lt) _)) .nil)))))

theorem hasDocument_toJson (t : StencilType) : t.HasDocument t.toJson := .record .kept .kept .kept

end StencilType

namespace Argument

variable {a : Argument} {j : Json}

theorem ofJson?_document (h : a.HasDocument j) : ofJson? j = some a := by
  cases h with
  | @record joutput jtype houtput htype =>
      rw [ofJson?, Json.fields?_written
        ["name", "is_stream", "is_output", "stencil_type"]
        [("name", some (.text a.name)), ("is_stream", some (.bool a.isStream)),
            ("is_output", joutput), ("stencil_type", some jtype)] rfl (by decide)]
      have hflag : Json.bool? (.bool a.isOutput) = some a.isOutput := rfl
      simp [Json.required, Json.text?, Json.bool?, houtput.read hflag,
        StencilType.ofJson?_document htype]

theorem abridges_of_hasDocument (h : a.HasDocument j) : Json.Abridges a.toJson j := by
  cases h with
  | record houtput htype =>
      exact Json.abridges_object
        (.cons (.kept (Json.abridges_text _)) (.cons (.kept (Json.abridges_bool _))
          (.cons (houtput.abridges (Json.abridges_bool _))
            (.cons (.kept (StencilType.abridges_of_hasDocument htype)) .nil))))

theorem hasDocument_toJson (a : Argument) : a.HasDocument a.toJson :=
  .record .kept a.stencilType.hasDocument_toJson

theorem mapM_ofJson?_documents {args : List Argument} {js : List Json}
    (h : List.Forall₂ HasDocument args js) : js.mapM ofJson? = some args := by
  induction h with
  | nil => rfl
  | cons ha _ ih =>
      rw [List.mapM_cons, ofJson?_document ha, ih]
      rfl

end Argument

namespace Kernel

variable {k : Kernel} {j : Json}

/-- A kernel without floating point constants has its full document. -/
theorem hasDocument_toJson (hfloats : Stmt.FloatFree k.body.nodes) : k.HasDocument k.toJson :=
  .record (List.forall₂_map_right_iff.mpr
      (List.forall₂_same.mpr fun a _ => a.hasDocument_toJson))
    (k.body.hasDocument_toJson hfloats)

theorem abridges_of_hasDocument (h : k.HasDocument j) : Json.Abridges k.toJson j := by
  cases h with
  | record hargs hbody =>
      have hlist := List.forall₂_map_left_iff.mpr
        (hargs.imp fun _ _ => Argument.abridges_of_hasDocument)
      exact Json.abridges_object
        (.cons (.kept (Json.abridges_text _)) (.cons (.kept (Json.abridges_list hlist))
          (.cons (.kept (Stmt.abridges_of_hasDocument hbody)) .nil)))

/-- Every document of a kernel that does not nest too deeply is read as the kernel. -/
theorem ofJson?_document (h : k.HasDocument j) (hnesting : j.nesting < 128) :
    ofJson? j = some k := by
  cases h with
  | @record jargs jbody hargs hbody =>
      have hlegible := Stmt.abridges_of_hasDocument hbody
      -- The body is one level inside of the document.
      have hdeep : jbody.nesting + 1 ≤ deepestNesting := by
        simp only [Json.written_some, Json.written_nil, Json.nesting, Json.nestingOfMembers]
          at hnesting
        rw [deepestNesting]
        omega
      have hread : bodyOfJson? jbody = some k.body := by
        rw [bodyOfJson?, if_pos (by rw [hlegible.readable, decide_eq_true hdeep]; rfl)]
        exact Stmt.read?_document hbody false (Nat.lt_succ_self _)
      rw [ofJson?, Json.fields?_written ["name", "args", "body"]
        [("name", some (.text k.name)), ("args", some (.list jargs)),
            ("body", some jbody)] rfl (by decide)]
      simp [Json.required, Json.text?, Json.list?, Argument.mapM_ofJson?_documents hargs, hread]

theorem ofText_pretty (h : k.HasDocument j) (hnesting : k.toJson.nesting < 128) :
    ofText j.pretty = .ok k := by
  have hlegible := abridges_of_hasDocument h
  rw [ofText, Json.ofText?_pretty hlegible.proper, Option.bind_some,
    ofJson?_document h (Nat.lt_of_le_of_lt hlegible.nesting_le hnesting)]

/-- A kernel without floating point constants whose document nests less than 128 levels
    deep is read back from its text, and from the text of every document in which fields
    that hold their default are left out. -/
theorem ofText_documents (k : Kernel)
    (hfloats : ∀ t x, Node.expr (.floatImm t x) ∉ k.body.nodes)
    (hnesting : k.toJson.nesting < 128) :
    ofText k.text = .ok k ∧ ∀ j, k.HasDocument j → ofText j.pretty = .ok k :=
  ⟨ofText_pretty (hasDocument_toJson hfloats) hnesting, fun _ h => ofText_pretty h hnesting⟩

/-- A kernel in which all fields that have a default hold it. -/
def plain : Kernel :=
  ⟨"plain", [⟨"p", false, false, ⟨.scalar, .uint 8, [], 1, []⟩⟩],
    .loop "x" (.intImm (.int 32) 0) (.intImm (.int 32) 4) .serial
      (.branch (.binary .lt (.var (.int 32) "x") (.var (.uint 8) "p"))
        (.evaluate (.call (.int 32) "abs" [.var (.int 32) "x"] .intrinsic)) none)⟩

/-- `plain` is read back from its text, and from a document with none of these fields. -/
theorem ofText_documents_plain :
    ofText plain.text = .ok plain ∧
      ∃ j, plain.HasDocument j ∧ j.tokens.length < plain.toJson.tokens.length ∧
        ofText j.pretty = .ok plain := by
  have hfloats : ∀ t x, Node.expr (.floatImm t x) ∉ plain.body.nodes := by
    intro t x
    simp [plain, Stmt.nodes, Stmt.nodesOfOption, Stmt.exprNodes, Expr.nodes, Expr.nodesOfList]
  have hread := ofText_documents plain hfloats (by decide +kernel)
  have hshort : plain.HasDocument _ := .record
    (.cons (.record (.omitted rfl) (.record (.omitted rfl) (.omitted rfl) (.omitted rfl))) .nil)
    (.loop "x" (.intImm _ _) (.intImm _ _) (.omitted rfl)
      (.branch (.binary .lt (.var _ _) (.var _ _))
        (.evaluate (.call _ "abs" (.cons (.var _ _) .nil) (.omitted rfl))) .omitted))
  exact ⟨hread.1, _, hshort, by decide +kernel, hread.2 _ hshort⟩

end Kernel

end StencilRtl
