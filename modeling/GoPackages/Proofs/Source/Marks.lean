import GoPackages.Proofs.Source.Growth
import GoPackages.Proofs.Text.Slices
import Mathlib.Data.List.Forall2

/-!
# What points into the text of a file

The identifiers and the spans of a file, node by node, and what they lead to in a file that was
built further. A program of the builder is followed with the file in view that it is going to be a
part of: as that file only adds to the present one, whatever is written now is found there, as long
as positions fit into the width of a span.
-/
namespace GoPackages.Source

inductive Mark where
  | name (ident : Ident)
  | text (span : Span)
  deriving DecidableEq, Repr

def Mark.span : Mark → Span
  | .name i => i.span
  | .text span => span

/-- What may be used of a mark: the place of an identifier is also one of a text. -/
def Mark.parts : Mark → List Mark
  | .name i => [.name i, .text i.span]
  | .text span => [.text span]

theorem mem_flatMap_parts {m : Mark} {ms : List Mark} (h : m ∈ ms) :
    m ∈ ms.flatMap Mark.parts := by
  refine List.mem_flatMap.mpr ⟨m, h, ?_⟩
  cases m <;> exact .head _

def nameMarks (idents : List Ident) : List Mark := idents.map .name

def ElemNode.marks : ElemNode → List Mark
  | .method name _ => [.name name]
  | .embedded _ | .union _ => []

def TypeNode.marks : TypeNode → List Mark
  | .named name _ | .selector _ name _ => [.name name]
  | .interface elems => elems.flatMap ElemNode.marks
  | .bad span => [.text span]
  | .pointer _ | .array _ _ | .slice _ | .ellipsis _ | .map _ _ | .chan _ _ | .func _ | .struct _
  | .paren _ => []

def ExprNode.marks : ExprNode → List Mark
  | .ident name | .selector _ name => [.name name]
  | .literal _ span | .other span | .bad span => [.text span]
  | .composite _ | .call _ | .unary _ _ | .paren _ => []

def FieldNode.marks (node : FieldNode) : List Mark :=
  nameMarks node.names ++ node.tag.toList.map Mark.text

def ImportNameNode.mark : ImportNameNode → Mark
  | .dot span | .blank span => .text span
  | .named name => .name name

def SpecNode.marks : SpecNode → List Mark
  | .importSpec _ name path => .text path :: name.toList.map ImportNameNode.mark
  | .valueSpec _ idents _ _ => nameMarks idents
  | .typeSpec _ name _ _ _ => [.name name]

def DeclNode.marks : DeclNode → List Mark
  | .group _ _ specs => specs.flatMap SpecNode.marks
  | .func _ _ name _ _ _ => [.name name]

theorem exists_of_forall₂ {α β : Type} {R : α → β → Prop} {l : List α} {l' : List β}
    (h : List.Forall₂ R l l') : ∀ r ∈ l', ∃ a, R a r := by
  induction h with
  | nil => exact fun _ hm => nomatch hm
  | cons hr _ ih => exact List.forall_mem_cons.mpr ⟨⟨_, hr⟩, ih⟩

namespace File

def Names (f : File) (i : Ident) (s : String) : Prop :=
  f.textAt? i.span = some s ∧ f.nameOf? i = some s

/-- A span has a text, and an identifier has its name for its text. -/
def Resolves (f : File) : Mark → Prop
  | .name i => ∃ s, f.Names i s
  | .text span => ∃ s, f.textAt? span = some s

/-- A property of all that the nodes of a file point to. -/
structure Every (f : File) (P : Mark → Prop) : Prop where
  exprs : ∀ node ∈ f.exprs, ∀ m ∈ node.marks, P m
  types : ∀ node ∈ f.types, ∀ m ∈ node.marks, P m
  fields : ∀ node ∈ f.fields, ∀ m ∈ node.marks, P m
  comments : ∀ group ∈ f.commentGroups, ∀ c ∈ group, P (.text c.span)
  decls : ∀ node ∈ f.decls, ∀ m ∈ node.marks, P m

variable {f f' : File}

theorem Later.textAt? (h : f.Later f') {span : Span} {s : String} (hs : f.textAt? span = some s) :
    f'.textAt? span = some s := by
  obtain ⟨more, hmore⟩ := h.text
  rw [File.textAt?, hmore]
  exact Text.slice?_append_right hs more

theorem Later.size_le (h : f.Later f') : f.text.utf8ByteSize ≤ f'.text.utf8ByteSize := by
  obtain ⟨more, hmore⟩ := h.text
  rw [hmore, String.utf8ByteSize_append]
  exact Nat.le_add_right _ _

theorem Resolves.parts {m : Mark} (h : f.Resolves m) : ∀ p ∈ m.parts, f.Resolves p := by
  cases m with
  | name i =>
    obtain ⟨s, hs⟩ := h
    exact List.forall_mem_cons.mpr ⟨⟨s, hs⟩, List.forall_mem_singleton.mpr ⟨s, hs.1⟩⟩
  | text span => exact List.forall_mem_singleton.mpr h

theorem resolves_flatMap_parts {ms : List Mark} (h : ∀ m ∈ ms, f.Resolves m) :
    ∀ p ∈ ms.flatMap Mark.parts, f.Resolves p :=
  List.forall_mem_flatMap.mpr fun m hm => (h m hm).parts

theorem Resolves.onBoundaries {m : Mark} (h : f.Resolves m) :
    Text.OnBoundaries f.text m.span.start.toNat m.span.stop.toNat := by
  cases m with
  | name i =>
    obtain ⟨s, hs, -⟩ := h
    exact Text.onBoundaries_of_slice? hs
  | text span =>
    obtain ⟨s, hs⟩ := h
    exact Text.onBoundaries_of_slice? hs

theorem Every.imp {P Q : Mark → Prop} (h : f.Every P) (hpq : ∀ m, P m → Q m) : f.Every Q where
  exprs node hnode m hm := hpq m (h.exprs node hnode m hm)
  types node hnode m hm := hpq m (h.types node hnode m hm)
  fields node hnode m hm := hpq m (h.fields node hnode m hm)
  comments group hgroup c hc := hpq _ (h.comments group hgroup c hc)
  decls node hnode m hm := hpq m (h.decls node hnode m hm)

theorem resolves_nameMarks {last : File} {ss : List String} {idents : List Ident}
    (h : List.Forall₂ (fun s i => last.Names i s) ss idents) :
    ∀ m ∈ nameMarks idents, last.Resolves m :=
  List.forall_mem_map.mpr (exists_of_forall₂ h)

end File

/-- What a builder has done so far is found in the last file. Every name has a line of its own in
the text, so there are no more names than bytes. -/
structure Fine (last : File) (b : Builder) : Prop where
  symbols : b.file.symbols.size ≤ b.file.text.utf8ByteSize
  resolves : b.file.Every last.Resolves

/-- Where the last file is one that a program leads to, what the program does is found in it. -/
def Builds {α : Type} (last : File) (b : Builder) (m : BuildM α) (post : α → Builder → Prop) :
    Prop :=
  Fine last b → (m b).2.file.Later last → Fine last (m b).2 ∧ post (m b).1 (m b).2

section Rules

variable {α β : Type} {last : File} {b : Builder} {m : BuildM α} {post : α → Builder → Prop}

theorem Builds.mono (h : Builds last b m post) {post' : α → Builder → Prop}
    (hpost : ∀ a b', b'.file.Later last → post a b' → post' a b') : Builds last b m post' :=
  fun hb hlast => (h hb hlast).imp_right (hpost _ _ hlast)

theorem builds_pure {a : α} (h : post a b) : Builds last b (pure a) post := fun hb _ => ⟨hb, h⟩

/-- The rule of sequence. -/
theorem Builds.bind [Appends m] {k : α → BuildM β} [∀ a, Appends (k a)]
    {post' : β → Builder → Prop} (h : Builds last b m post)
    (hk : ∀ a b', b.file.Later b'.file → post a b' → Builds last b' (k a) post') :
    Builds last b (m >>= k) post' := by
  intro hb hlast
  have hmid := (Appends.later (m := k (m b).1) (m b).2).trans hlast
  obtain ⟨hfine, hpost⟩ := h hb hmid
  exact hk _ _ (Appends.later b) hpost hfine hlast

theorem mapM_builds {f : α → BuildM β} [∀ a, Appends (f a)] {R : α → β → Prop} {l : List α}
    (h : ∀ a ∈ l, ∀ b, Builds last b (f a) fun r _ => R a r) (b : Builder) :
    Builds last b (l.mapM f) fun rs _ => List.Forall₂ R l rs := by
  induction l generalizing b with
  | nil => exact builds_pure .nil
  | cons a l ih =>
    obtain ⟨ha, hl⟩ := List.forall_mem_cons.mp h
    rw [List.mapM_cons]
    refine (ha b).bind fun r b₁ _ hr => (ih hl b₁).bind fun rs b₂ _ hrs => ?_
    exact builds_pure (.cons hr hrs)

end Rules

section Primitives

variable {last : File} {b : Builder}

theorem addExpr_builds {node : ExprNode} (h : ∀ m ∈ node.marks, last.Resolves m) :
    Builds last b (Builder.addExpr node) fun id _ => last.exprs[id.index]? = some node := by
  intro hb hlast
  refine ⟨⟨hb.symbols, { hb.resolves with exprs := fun n hn => ?_ }⟩, ?_⟩
  · rcases Array.mem_push.mp hn with hn | rfl
    · exact hb.resolves.exprs n hn
    · exact h
  · exact hlast.exprs _ node Array.getElem?_push_size

theorem addType_builds {node : TypeNode} (h : ∀ m ∈ node.marks, last.Resolves m) :
    Builds last b (Builder.addType node) fun id _ => last.types[id.index]? = some node := by
  intro hb hlast
  refine ⟨⟨hb.symbols, { hb.resolves with types := fun n hn => ?_ }⟩, ?_⟩
  · rcases Array.mem_push.mp hn with hn | rfl
    · exact hb.resolves.types n hn
    · exact h
  · exact hlast.types _ node Array.getElem?_push_size

theorem addField_builds {node : FieldNode} (h : ∀ m ∈ node.marks, last.Resolves m) :
    Builds last b (Builder.addField node) fun id b' =>
      b'.file.fields[id.index]? = some node := by
  intro hb hlast
  refine ⟨⟨hb.symbols, { hb.resolves with fields := fun n hn => ?_ }⟩, Array.getElem?_push_size⟩
  rcases Array.mem_push.mp hn with hn | rfl
  · exact hb.resolves.fields n hn
  · exact h

theorem modifyField_builds {id : FieldId} {f : FieldNode → FieldNode}
    (h : ∀ node, (∀ m ∈ node.marks, last.Resolves m) → ∀ m ∈ (f node).marks, last.Resolves m) :
    Builds last b (Builder.modifyField id f) fun _ b' => ∀ node,
      b.file.fields[id.index]? = some node → b'.file.fields[id.index]? = some (f node) := by
  intro hb hlast
  refine ⟨⟨hb.symbols, { hb.resolves with fields := fun n hn => ?_ }⟩, fun node hnode => ?_⟩
  · obtain ⟨k, hk⟩ := Array.mem_iff_getElem?.mp hn
    change (b.file.fields.modify id.index f)[k]? = some n at hk
    rw [Array.getElem?_modify] at hk
    split at hk
    · obtain ⟨old, hold, rfl⟩ := Option.map_eq_some_iff.mp hk
      exact h old (hb.resolves.fields old (Array.mem_of_getElem? hold))
    · exact hb.resolves.fields n (Array.mem_of_getElem? hk)
  · change (b.file.fields.modify id.index f)[id.index]? = some (f node)
    rw [Array.getElem?_modify, if_pos rfl, hnode]
    rfl

theorem declare_builds {make : Option CommentGroupId → DeclNode}
    (h : ∀ doc, ∀ m ∈ (make doc).marks, last.Resolves m) :
    Builds last b (Builder.declare make) fun _ b' =>
      ∃ doc, last.decls[b'.file.decls.length - 1]? = some (make doc) := by
  intro hb hlast
  refine ⟨⟨hb.symbols, { hb.resolves with decls := fun n hn => ?_ }⟩, b.pendingDoc, ?_⟩
  · rcases List.mem_append.mp hn with hn | hn
    · exact hb.resolves.decls n hn
    · obtain rfl := List.mem_singleton.mp hn
      exact h b.pendingDoc
  · refine hlast.decls _ _ ?_
    change (b.file.decls ++ [make b.pendingDoc])[
      (b.file.decls ++ [make b.pendingDoc]).length - 1]? = some (make b.pendingDoc)
    simp

variable (hfits : last.text.utf8ByteSize < UInt32.size)
include hfits

theorem textAt?_appendText (s : String) (hlast : (Builder.appendText s b).2.file.Later last) :
    last.textAt? (Builder.appendText s b).1 = some s := by
  have hsize := hlast.size_le
  have hnew : (Builder.appendText s b).2.file.text = b.file.text ++ s ++ "\n" := rfl
  rw [hnew, String.utf8ByteSize_append, String.utf8ByteSize_append] at hsize
  have hat : (Builder.appendText s b).2.file.textAt? (Builder.appendText s b).1 = some s := by
    have hstart : (UInt32.ofNat b.file.text.utf8ByteSize).toNat = b.file.text.utf8ByteSize :=
      UInt32.toNat_ofNat_of_lt' (by omega)
    have hstop : (UInt32.ofNat (b.file.text ++ s).utf8ByteSize).toNat =
        b.file.text.utf8ByteSize + s.utf8ByteSize := by
      rw [String.utf8ByteSize_append]
      exact UInt32.toNat_ofNat_of_lt' (by omega)
    change Text.slice? (b.file.text ++ s ++ "\n") (UInt32.ofNat b.file.text.utf8ByteSize).toNat
      (UInt32.ofNat (b.file.text ++ s).utf8ByteSize).toNat = some s
    rw [hstart, hstop]
    exact Text.slice?_append b.file.text s "\n"
  exact hlast.textAt? hat

theorem appendText_builds (s : String) :
    Builds last b (Builder.appendText s) fun span _ => last.textAt? span = some s := by
  intro hb hlast
  refine ⟨⟨?_, { hb.resolves with }⟩, textAt?_appendText hfits s hlast⟩
  exact Nat.le_trans hb.symbols (Appends.later (m := Builder.appendText s) b).size_le

theorem ident_builds (s : String) :
    Builds last b (Builder.ident s) fun i _ => last.Names i s := by
  intro hb hlast
  have htext := textAt?_appendText (b := b) hfits s { hlast with
    symbols := fun k v hv => hlast.symbols k v (Interner.strings_intern hv s) }
  have hsize := hlast.size_le
  have hnew : (Builder.ident s b).2.file.text = b.file.text ++ s ++ "\n" := rfl
  rw [hnew, String.utf8ByteSize_append, String.utf8ByteSize_append] at hsize
  have hline : "\n".utf8ByteSize = 1 := rfl
  refine ⟨⟨?_, { hb.resolves with }⟩, htext, ?_⟩
  · have hcount : (Builder.ident s b).2.file.symbols.size ≤ b.file.symbols.size + 1 :=
      Interner.size_intern_le b.file.symbols s
    have hsymbols := hb.symbols
    rw [hnew, String.utf8ByteSize_append, String.utf8ByteSize_append]
    omega
  · have hroom : b.file.symbols.size < UInt32.size := by
      have hsymbols := hb.symbols
      omega
    exact hlast.symbols _ s (Interner.resolve?_intern hroom s)

end Primitives

end GoPackages.Source
