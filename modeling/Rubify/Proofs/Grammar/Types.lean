import Rubify.Program.Declare
import Rubify.Proofs.Grammar.Accepts

/-!
# What is read as a type

The productions of types, as predicates on the children of bare nodes:

    type                 ::= (classOrInterfaceType | primitiveType) ('[' ']')*
    classOrInterfaceType ::= Identifier typeArguments? ('.' Identifier typeArguments?)*
    typeArguments        ::= '<' typeArgument (',' typeArgument)* '>'
    typeArgument         ::= type | '?' (('extends' | 'super') type)?

A derivation of a type also says what is kept of it: a primitive type or the texts of the identifiers,
and the number of bracket pairs. Of type arguments nothing is kept.

Readers decide with one node of lookahead where a production ends. In these productions that is never a
loss: no continuation begins with a node that could also belong to what was read before.

Headline:
* **`readType_iff`**: a tree is read as a type iff it is one, comments aside, and the type that it is read
  as is the meaning of what is kept.
-/

namespace Rubify

open Syntax

/-! ## Productions -/

namespace Node

/-- Pairs of brackets. -/
inductive Pairs : List Node → Nat → Prop
  | nil : Pairs [] 0
  | cons {o c : Node} {rest : List Node} {k : Nat} :
      o.IsLeafOf "[" → c.IsLeafOf "]" → Pairs rest k → Pairs (o :: c :: rest) (k + 1)

mutual

/-- The children of a `type`. -/
inductive TypeParts : List Node → TypeRef → Prop
  | primitive {c w : Node} {rest : List Node} {p : Primitive} {k : Nat} :
      c.kind = "primitiveType" → c.children = [w] → w.IsLeafOf p.keyword → Pairs rest k →
        TypeParts (c :: rest) ⟨.primitive p, k⟩
  | named {c : Node} {rest : List Node} {segments : List String} {k : Nat} :
      c.kind = "classOrInterfaceType" → PathParts c.children segments → Pairs rest k →
        TypeParts (c :: rest) ⟨.named segments, k⟩

/-- The children of a `classOrInterfaceType`, with the texts of the identifiers. -/
inductive PathParts : List Node → List String → Prop
  | last {i : Node} {arguments : List Node} :
      i.IsLeafOf "Identifier" → OptionalArguments arguments → PathParts (i :: arguments) [i.text]
  | more {i dot : Node} {arguments rest : List Node} {segments : List String} :
      i.IsLeafOf "Identifier" → OptionalArguments arguments → dot.IsLeafOf "." →
        PathParts rest segments → PathParts (i :: (arguments ++ dot :: rest)) (i.text :: segments)

/-- One `typeArguments` or none. -/
inductive OptionalArguments : List Node → Prop
  | none : OptionalArguments []
  | some {c : Node} :
      c.kind = "typeArguments" → ArgumentsParts c.children → OptionalArguments [c]

/-- The children of `typeArguments`. -/
inductive ArgumentsParts : List Node → Prop
  | mk {less greater : Node} {arguments : List Node} :
      less.IsLeafOf "<" → ArgumentList arguments → greater.IsLeafOf ">" →
        ArgumentsParts (less :: (arguments ++ [greater]))

/-- Every `typeArgument` of a list, with the commas between them. -/
inductive ArgumentList : List Node → Prop
  | last {a : Node} : a.kind = "typeArgument" → ArgumentParts a.children → ArgumentList [a]
  | more {a comma : Node} {rest : List Node} :
      a.kind = "typeArgument" → ArgumentParts a.children → comma.IsLeafOf "," → ArgumentList rest →
        ArgumentList (a :: comma :: rest)

/-- The children of a `typeArgument`. -/
inductive ArgumentParts : List Node → Prop
  | type {t : Node} {kept : TypeRef} :
      t.kind = "type" → TypeParts t.children kept → ArgumentParts [t]
  | any {q : Node} : q.IsLeafOf "?" → ArgumentParts [q]
  | bounded {q b t : Node} {kept : TypeRef} :
      q.IsLeafOf "?" → b.IsLeafOf "extends" ∨ b.IsLeafOf "super" → t.kind = "type" →
        TypeParts t.children kept → ArgumentParts [q, b, t]

end

/-- The node is a type, of which `kept` is kept. -/
def IsType (c : Node) (kept : TypeRef) : Prop :=
  c.kind = "type" ∧ TypeParts c.children kept

end Node

/-! ## Readers and productions -/

namespace Grammar

open MonadWalk Reader Node

variable {n : Node}

/-- Bracket pairs are read up to something else. -/
theorem accepts_dims : Accepts (dims : Reader n Nat) fun l k rest =>
    ∃ pairs, l = pairs ++ rest ∧ Pairs pairs k ∧ headIn ["["] rest = false := by
  have hstep := accepts_if_token (n := n) "["
    ((accepts_token "]").bind fun _ => accepts_pure (a := some ())) (accepts_pure (a := none))
  refine ((accepts_gather hstep ?_).bind fun _ => accepts_pure).congr fun l k rest => ?_
  · rintro l _ mid (⟨o, mid', rfl, -, _, _, ⟨c, rfl, -⟩, -, rfl⟩ | ⟨-, h, -⟩)
    · simp only [List.length_cons]
      omega
    · cases h
  · constructor
    · rintro ⟨pairs, _, hpairs, rfl, rfl⟩
      induction hpairs with
      | stop h =>
        obtain ⟨o, _, -, -, _, _, -, h, -⟩ | ⟨hnot, -, rfl⟩ := h
        · cases h
        · exact ⟨[], rfl, .nil, hnot⟩
      | more h _ ih =>
        obtain ⟨o, _, rfl, ho, _, _, ⟨c, rfl, hc⟩, -, rfl⟩ | ⟨-, h, -⟩ := h
        · obtain ⟨pairs, rfl, hpairs, hrest⟩ := ih
          exact ⟨o :: c :: pairs, rfl, .cons ho hc hpairs, hrest⟩
        · cases h
    · rintro ⟨pairs, rfl, hpairs, hrest⟩
      suffices h : ∃ units : List Unit, units.length = k ∧ Repeats _ (pairs ++ rest) units rest by
        obtain ⟨units, hlength, hunits⟩ := h
        exact ⟨units, rest, hunits, hlength.symm, rfl⟩
      induction hpairs with
      | nil => exact ⟨[], rfl, .stop (Or.inr ⟨hrest, rfl, rfl⟩)⟩
      | @cons o c pairs k ho hc _ ih =>
        obtain ⟨units, rfl, hunits⟩ := ih
        exact ⟨() :: units, rfl,
          .more (Or.inl ⟨o, _, rfl, ho, (), _, ⟨c, rfl, hc⟩, rfl, rfl⟩) hunits⟩

/-- One segment of a class name, up to something else. -/
def SegmentIn (l : List Node) (segment : String) (rest : List Node) : Prop :=
  ∃ i arguments, l = i :: (arguments ++ rest) ∧ i.IsLeafOf "Identifier" ∧ segment = i.text ∧
    OptionalArguments arguments ∧ (arguments = [] → headIn ["typeArguments"] rest = false)

theorem length_of_segmentIn (l : List Node) (segment : String) (rest : List Node)
    (h : SegmentIn l segment rest) : rest.length ≤ l.length := by
  obtain ⟨i, arguments, rfl, -⟩ := h
  simp only [List.length_cons, List.length_append]
  omega

/-- Segments with dots between them are the children of a class name. -/
theorem separated_segments_iff {l : List Node} {segments : List String} :
    Separated "." SegmentIn l segments [] ↔ PathParts l segments := by
  constructor
  · generalize hrest : ([] : List Node) = rest
    intro h
    induction h with
    | last h =>
      subst hrest
      obtain ⟨i, arguments, rfl, hi, rfl, harguments, -⟩ := h
      rw [List.append_nil]
      exact .last hi harguments
    | more h hdot _ ih =>
      obtain ⟨i, arguments, rfl, hi, rfl, harguments, -⟩ := h
      exact .more hi harguments hdot (ih hrest)
  · -- The recursion is on the segments: the productions are mutual.
    induction segments generalizing l with
    | nil => rintro ⟨⟩
    | cons segment segments ih =>
      rintro (⟨hi, harguments⟩ | ⟨hi, harguments, hdot, hmore⟩)
      · refine .last ⟨_, _, ?_, hi, rfl, harguments, fun _ => rfl⟩ rfl
        rw [List.append_nil]
      · refine .more ⟨_, _, rfl, hi, rfl, harguments, fun _ => ?_⟩ hdot (ih hmore)
        exact headIn_of_kind (by rw [hdot.1]; decide)

/-- A `typeArgument`, up to something else. -/
def ArgumentAt (l : List Node) (_ : Unit) (rest : List Node) : Prop :=
  ∃ a, l = a :: rest ∧ a.kind = "typeArgument" ∧ ArgumentParts a.children

theorem length_of_argumentAt (l : List Node) (u : Unit) (rest : List Node)
    (h : ArgumentAt l u rest) : rest.length ≤ l.length := by
  obtain ⟨a, rfl, -⟩ := h
  simp only [List.length_cons]
  omega

/-- Arguments with commas between them, up to something else than a comma. -/
theorem separated_arguments_iff {l rest : List Node} (hrest : headIn [","] rest = false) :
    (∃ units, Separated "," ArgumentAt l units rest) ↔
      ∃ arguments, l = arguments ++ rest ∧ ArgumentList arguments := by
  constructor
  · rintro ⟨units, h⟩
    induction h with
    | last h =>
      obtain ⟨a, rfl, ha, hparts⟩ := h
      exact ⟨[a], rfl, .last ha hparts⟩
    | @more l mid rest comma _ _ h hcomma _ ih =>
      obtain ⟨a, rfl, ha, hparts⟩ := h
      obtain ⟨arguments, rfl, harguments⟩ := ih hrest
      exact ⟨a :: comma :: arguments, rfl, .more ha hparts hcomma harguments⟩
  · rintro ⟨arguments, rfl, h⟩
    -- The recursion is on the number of nodes: the productions are mutual.
    induction hlength : arguments.length using Nat.strongRecOn generalizing arguments with
    | _ length ih =>
      rcases h with ⟨ha, hparts⟩ | ⟨ha, hparts, hcomma, hmore⟩
      · exact ⟨[()], .last ⟨_, rfl, ha, hparts⟩ hrest⟩
      · obtain ⟨units, hunits⟩ := ih _ (by simp only [← hlength, List.length_cons]; omega) _ hmore rfl
        exact ⟨() :: units, .more ⟨_, rfl, ha, hparts⟩ hcomma hunits⟩

/-- The keyword of a primitive type names it. -/
theorem primitiveName_keyword (p : Primitive) : primitiveName p.keyword = .primitive p := by
  cases p <;> rfl

/-- A primitive type is its keyword. -/
theorem accepts_primitive :
    Accepts (n := n) (inside ["primitiveType"] fun _ _ =>
      return primitiveName (← expect (Primitive.all.map Primitive.keyword))) fun l base rest =>
      ∃ c w p, l = c :: rest ∧ c.kind = "primitiveType" ∧ c.children = [w] ∧
        w.IsLeafOf p.keyword ∧ base = .primitive p := by
  have hbody (c : Node) : AcceptsAll
      (return primitiveName (← expect (Primitive.all.map Primitive.keyword)) : Reader c TypeName) _ :=
    (accepts_expect.bind fun _ => accepts_pure).all fun _ _ => Iff.rfl
  refine (accepts_inside _ fun c _ => hbody c).congr fun l base rest => ?_
  constructor
  · rintro ⟨c, rfl, hk, _, _, ⟨w, hw, hword, hleaf, rfl⟩, rfl, rfl⟩
    obtain ⟨p, -, hp⟩ := List.mem_map.mp hword
    refine ⟨c, w, p, rfl, List.mem_singleton.mp hk, hw, ⟨hp.symm, hleaf⟩, ?_⟩
    rw [← hp, primitiveName_keyword]
  · rintro ⟨c, w, p, rfl, hk, hw, ⟨hword, hleaf⟩, rfl⟩
    refine ⟨c, rfl, List.mem_singleton.mpr hk, _, _, ⟨w, hw, ?_, hleaf, rfl⟩, ?_, rfl⟩
    · rw [hword]
      cases p <;> decide
    · rw [hword, primitiveName_keyword]

/-- A type argument is a type or a question mark with or without a bound, given what types are. -/
theorem accepts_argument
    (ht : ∀ c ∈ n.children, ∀ t ∈ c.children, AcceptsAll (typeIn t) TypeParts) :
    Accepts (n := n) (inside ["typeArgument"] fun _ _ => do
      let bounded ←
        if ← tryToken "?" then pure (← tryMatch ["extends", "super"]).isSome
        else pure true
      if bounded then
        let _ ← inside ["type"] fun t _ => typeIn t) ArgumentAt := by
  have htype (c : Node) (hc : c ∈ n.children) (bounded : Bool) :=
    accepts_choice bounded
      ((accepts_inside ["type"] (ht c hc)).bind fun _ => accepts_pure (a := ())) (accepts_pure (a := ()))
  refine Accepts.congr (accepts_inside _ fun c hc => Accepts.all
    (accepts_if_token "?" (accepts_tryMatch.bind fun found => accepts_pure.bind (htype c hc))
      (accepts_pure.bind (htype c hc))) (P := fun l _ => ArgumentParts l) fun l _ => ?_)
    fun l _ rest => by simp only [List.mem_singleton]; rfl
  constructor
  · rintro (⟨q, mid, rfl, hq, _, _, hbound, _, _, ⟨rfl, rfl⟩, hmore⟩ |
      ⟨-, _, _, ⟨rfl, rfl⟩, ⟨-, _, _, ⟨t, rfl, hk, htype⟩, -, rfl⟩ | ⟨h, -⟩⟩)
    · obtain ⟨b, rfl, hb, hleaf, rfl⟩ | ⟨-, rfl, rfl⟩ := hbound
      · obtain ⟨-, _, _, ⟨t, rfl, hk, htype⟩, -, rfl⟩ | ⟨h, -⟩ := hmore
        · refine .bounded hq ?_ (List.mem_singleton.mp hk) htype
          rw [List.mem_pair] at hb
          exact hb.imp (⟨·, hleaf⟩) (⟨·, hleaf⟩)
        · cases h
      · obtain ⟨h, -⟩ | ⟨-, -, rfl⟩ := hmore
        · cases h
        · exact .any hq
    · exact .type (List.mem_singleton.mp hk) htype
    · cases h
  · rintro (⟨hk, htype⟩ | ⟨hq⟩ | ⟨hq, hb, hk, htype⟩)
    · exact Or.inr ⟨headIn_of_kind (by rw [hk]; decide), _, _, ⟨rfl, rfl⟩,
        Or.inl ⟨rfl, _, _, ⟨_, rfl, List.mem_singleton.mpr hk, htype⟩, rfl, rfl⟩⟩
    · exact Or.inl ⟨_, _, rfl, hq, _, _, Or.inr ⟨rfl, rfl, rfl⟩, _, _, ⟨rfl, rfl⟩,
        Or.inr ⟨rfl, rfl, rfl⟩⟩
    · refine Or.inl ⟨_, _, rfl, hq, _, _, Or.inl ⟨_, rfl, ?_, ?_, rfl⟩, _, _, ⟨rfl, rfl⟩,
        Or.inl ⟨rfl, _, _, ⟨_, rfl, List.mem_singleton.mpr hk, htype⟩, rfl, rfl⟩⟩
      · exact List.mem_pair.mpr (hb.imp And.left And.left)
      · exact hb.elim And.right And.right

mutual

theorem accepts_typeIn (n : Node) : AcceptsAll (typeIn n) TypeParts := by
  have hclass := accepts_inside (n := n) ["classOrInterfaceType"] fun c hc =>
    have := Node.count_lt_of_mem hc
    accepts_classTypeIn c
  have hdims (base : TypeName) := (accepts_dims (n := n)).bind fun k =>
    accepts_pure (a := (⟨base, k⟩ : TypeRef))
  rw [typeIn.eq_def]
  refine (accepts_if (accepts_primitive.bind hdims) (hclass.bind hdims)).all fun l kept => ?_
  constructor
  · rintro (⟨-, base, mid, hbase, k, _, ⟨pairs, rfl, hpairs, -⟩, rfl, rfl⟩ |
      ⟨-, base, mid, hbase, k, _, ⟨pairs, rfl, hpairs, -⟩, rfl, rfl⟩)
    · obtain ⟨c, w, p, rfl, hk, hw, hword, rfl⟩ := hbase
      rw [List.append_nil]
      exact .primitive hk hw hword hpairs
    · obtain ⟨c, rfl, hk, segments, hpath, rfl⟩ := hbase
      rw [List.append_nil]
      exact .named (List.mem_singleton.mp hk) hpath hpairs
  · rintro (⟨hk, hw, hword, hpairs⟩ | ⟨hk, hpath, hpairs⟩)
    · refine Or.inl ⟨by simp [headIn, hk], _, _, ⟨_, _, _, rfl, hk, hw, hword, rfl⟩, _, _,
        ⟨_, (List.append_nil _).symm, hpairs, rfl⟩, rfl, rfl⟩
    · refine Or.inr ⟨headIn_of_kind (by rw [hk]; decide), _, _,
        ⟨_, rfl, List.mem_singleton.mpr hk, _, hpath, rfl⟩, _, _,
        ⟨_, (List.append_nil _).symm, hpairs, rfl⟩, rfl, rfl⟩
termination_by n.count

theorem accepts_classTypeIn (n : Node) : AcceptsAll (classTypeIn n) fun l base =>
    ∃ segments, PathParts l segments ∧ base = .named segments := by
  have harguments : Accepts (Reader.optional "typeArguments" fun c _ => typeArgumentsIn c :
      Reader n _) _ :=
    accepts_optional fun c hc =>
      have := Node.count_lt_of_mem hc
      accepts_typeArgumentsIn c
  have hsegment := (accepts_name.bind fun segment => harguments.bind fun _ =>
    accepts_pure (a := segment)).congr (S := SegmentIn) fun l segment rest => by
      constructor
      · rintro ⟨_, mid, ⟨i, rfl, hi, rfl⟩, _, _, h, rfl, rfl⟩
        obtain ⟨c, _, rfl, hk, hc, -⟩ | ⟨hnot, -, rfl⟩ := h
        · exact ⟨i, [c], rfl, hi, rfl, .some hk hc, by simp⟩
        · exact ⟨i, [], rfl, hi, rfl, .none, fun _ => hnot⟩
      · rintro ⟨i, _, rfl, hi, rfl, _ | ⟨hk, hc⟩, hnot⟩
        · exact ⟨_, _, ⟨i, rfl, hi, rfl⟩, _, _, Or.inr ⟨hnot rfl, rfl, rfl⟩, rfl, rfl⟩
        · exact ⟨_, _, ⟨i, rfl, hi, rfl⟩, _, _, Or.inl ⟨_, (), rfl, hk, hc, rfl⟩, rfl, rfl⟩
  rw [classTypeIn.eq_def]
  refine ((accepts_separated "." hsegment length_of_segmentIn).bind fun segments => accepts_pure).all
    fun l base => ?_
  constructor
  · rintro ⟨segments, _, h, rfl, rfl⟩
    exact ⟨segments, separated_segments_iff.mp h, rfl⟩
  · rintro ⟨segments, h, rfl⟩
    exact ⟨segments, [], separated_segments_iff.mpr h, rfl, rfl⟩
termination_by n.count

theorem accepts_typeArgumentsIn (n : Node) :
    AcceptsAll (typeArgumentsIn n) fun l _ => ArgumentsParts l := by
  have harguments := accepts_separated "," (accepts_argument (n := n) fun c hc t ht =>
    have := Node.count_lt_of_mem hc
    have := Node.count_lt_of_mem ht
    accepts_typeIn t) length_of_argumentAt
  rw [typeArgumentsIn.eq_def]
  refine Accepts.all ((accepts_token "<").bind fun _ => harguments.bind fun _ => accepts_token ">")
    fun l _ => ?_
  constructor
  · rintro ⟨_, _, ⟨less, rfl, hless⟩, units, _, hunits, greater, rfl, hgreater⟩
    have hnot : headIn [","] [greater] = false := headIn_of_kind (by rw [hgreater.1]; decide)
    obtain ⟨arguments, rfl, harguments⟩ := (separated_arguments_iff hnot).mp ⟨units, hunits⟩
    exact .mk hless harguments hgreater
  · rintro ⟨hless, harguments, hgreater⟩
    obtain ⟨units, hunits⟩ := (separated_arguments_iff (headIn_of_kind (by
      rw [hgreater.1]; decide))).mpr ⟨_, rfl, harguments⟩
    exact ⟨(), _, ⟨_, rfl, hless⟩, units, _, hunits, _, rfl, hgreater⟩
termination_by n.count

end

end Grammar

/-! ## Meaning -/

namespace Program.Context

open Reader Grammar

/-- What the base of a type means in the context: the segments of a name mean `Object` if they are one
type variable, the constant path of a type of the body if they are its name, and else the class of the
dotted name. -/
inductive DenotesBase (cx : Context) : TypeName → JavaType → Prop
  | primitive (p : Primitive) : DenotesBase cx (.primitive p) (.primitive p)
  | typeVariable {name : String} : name ∈ cx.typeParams → DenotesBase cx (.named [name]) .object
  | localType {name : String} {path : List String} :
      name ∉ cx.typeParams → cx.localType? name = some path →
        DenotesBase cx (.named [name]) (.named ⟨[], path⟩)
  | dotted {segments : List String} :
      (∀ name, segments = [name] → name ∉ cx.typeParams ∧ cx.localType? name = none) →
        DenotesBase cx (.named segments) (.named (.ofDotted (".".intercalate segments)))

/-- What is kept of a written type means what its base means, in as many array dimensions as there are
bracket pairs. -/
def Denotes (cx : Context) (kept : TypeRef) (t : JavaType) : Prop :=
  ∃ base, cx.DenotesBase kept.base base ∧ t = .arrays kept.dims base

variable {cx : Context} {tree : Node} {kept : TypeRef} {t : JavaType}

theorem denotesBase_named {segments : List String} :
    cx.DenotesBase (.named segments) t ↔ t = cx.resolveName segments := by
  constructor
  · intro h
    cases h with
    | typeVariable hvar => simp [resolveName, isTypeParam, hvar]
    | localType hvar hlocal => simp [resolveName, isTypeParam, hvar, hlocal]
    | dotted hno =>
      unfold resolveName
      split
      · obtain ⟨hvar, hlocal⟩ := hno _ rfl
        simp [isTypeParam, hvar, hlocal]
      · rfl
  · rintro rfl
    unfold resolveName
    split
    · rename_i name
      by_cases hvar : name ∈ cx.typeParams
      · simpa [isTypeParam, hvar] using DenotesBase.typeVariable hvar
      · cases hlocal : cx.localType? name with
        | some path => simpa [isTypeParam, hvar, hlocal] using DenotesBase.localType hvar hlocal
        | none =>
          have hno : ∀ other, [name] = [other] → other ∉ cx.typeParams ∧ cx.localType? other = none := by
            rintro other heq
            cases heq
            exact ⟨hvar, hlocal⟩
          simpa [isTypeParam, hvar, hlocal] using DenotesBase.dotted hno
    · rename_i hseveral
      exact .dotted fun name heq => absurd heq (hseveral name)

/-- What is kept of a type has one meaning. -/
theorem denotes_iff {l : List Node} (h : Node.TypeParts l kept) :
    cx.Denotes kept t ↔ t = cx.resolve kept := by
  unfold Denotes resolve
  cases h with
  | @primitive c w rest p k hk hw hword hpairs =>
    constructor
    · rintro ⟨_, ⟨⟩, rfl⟩
      rfl
    · rintro rfl
      exact ⟨_, .primitive p, rfl⟩
  | named hk hpath hpairs => simp only [denotesBase_named, exists_eq_left]

theorem readTree_type_iff : (∃ comments, readTree tree Grammar.type = .ok (kept, comments)) ↔
    tree.bare.IsType kept := by
  have htype : AcceptsAll (Grammar.type : Reader (above tree) TypeRef) fun l kept =>
      ∃ c, l = [c] ∧ c.kind ∈ ["type"] ∧ Node.TypeParts c.children kept :=
    (accepts_inside _ fun c _ => accepts_typeIn c).all fun _ _ => Iff.rfl
  rw [readTree_iff htype, Node.IsType, Node.bareAll]
  by_cases hcomment : tree.isComment = true
  · have hkind : tree.kind = "line_comment" := of_decide_eq_true hcomment
    simp [hcomment, Node.bareAll, hkind]
  · simp [hcomment, Node.bareAll]

theorem readType_eq_ok : (∃ comments, cx.readType tree = .ok (t, comments)) ↔
    ∃ kept, tree.bare.IsType kept ∧ t = cx.resolve kept := by
  simp only [← readTree_type_iff, readType]
  cases readTree tree Grammar.type with
  | error e => simp [Except.map]
  | ok read => simp [Except.map, Prod.ext_iff, eq_comm]

/-- **Exactly the types are read, and they are erased.** A tree is read as a type iff it is one,
comments aside, and it is read as `t` iff `t` is the meaning of what is kept of it. -/
theorem readType_iff (cx : Context) (tree : Node) :
    ((∃ read, cx.readType tree = .ok read) ↔ ∃ kept, tree.bare.IsType kept) ∧
      ∀ t, (∃ comments, cx.readType tree = .ok (t, comments)) ↔
        ∃ kept, tree.bare.IsType kept ∧ cx.Denotes kept t := by
  refine ⟨?_, fun t => ?_⟩
  · rw [Prod.exists, exists_congr fun t => readType_eq_ok, exists_comm]
    simp only [exists_and_left, exists_eq, and_true]
  · rw [readType_eq_ok]
    exact exists_congr fun kept => and_congr_right fun h => (denotes_iff h.2).symm

end Program.Context

end Rubify
