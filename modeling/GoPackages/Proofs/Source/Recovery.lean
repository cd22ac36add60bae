import GoPackages.Proofs.Source.Calls

/-!
# Built files recover their texts

From one call to a whole file: whatever the calls before and after it are, a call's texts are
recovered from the finished file. What was recovered from the file at some point during its
building is recovered from it at the end.
-/
namespace GoPackages.Source

namespace Builder

def after (b : Builder) (calls : List Call) : Builder := calls.foldl (fun b c => (c.run b).2) b

theorem after_append (b : Builder) (front back : List Call) :
    b.after (front ++ back) = (b.after front).after back := List.foldl_append

theorem after_later (b : Builder) (calls : List Call) : b.file.Later (b.after calls).file := by
  induction calls generalizing b with
  | nil => exact .refl b.file
  | cons c rest ih => exact (Appends.later b).trans (ih (c.run b).2)

theorem after_name (b : Builder) (calls : List Call) :
    (b.after calls).file.name = b.file.name := by
  induction calls generalizing b with
  | nil => rfl
  | cons c rest ih => exact (ih (c.run b).2).trans (Appends.name (m := c.run) b)

end Builder

/-- What the arguments of the calls use to point into the text was given or is handed out by a
call before. -/
def Supplied (given : List Mark) (b : Builder) : List Call → Prop
  | [] => True
  | c :: rest =>
    (∀ m ∈ c.marks, m ∈ given) ∧ Supplied (given ++ (c.run b).1.marks) (c.run b).2 rest

section Runs

variable {last : File} (hfits : last.text.utf8ByteSize < UInt32.size)
include hfits

/-- The run: what has been built is found in the last file all along, and so is what each call
was given. -/
theorem run_builds {calls : List Call} {given : List Mark} {b : Builder} (hb : Fine last b)
    (hgiven : ∀ m ∈ given, last.Resolves m) (hsupplied : Supplied given b calls)
    (hlast : (b.after calls).file.Later last) :
    Fine last (b.after calls) ∧ ∀ front c back, calls = front ++ c :: back →
      c.Recovers last (c.run (b.after front)).1 := by
  induction calls generalizing given b with
  | nil => exact ⟨hb, fun front c back h => absurd h (by simp)⟩
  | cons c rest ih =>
    obtain ⟨hmarks, hrest⟩ := hsupplied
    have hmid : (c.run b).2.file.Later last := (Builder.after_later _ rest).trans hlast
    obtain ⟨hfine, hc, hhandle⟩ :=
      call_builds hfits c (fun m hm => hgiven m (hmarks m hm)) hb hmid
    obtain ⟨hdone, hcalls⟩ :=
      ih hfine (List.forall_mem_append.mpr ⟨hgiven, hhandle⟩) hrest hlast
    refine ⟨hdone, fun front c' back h => ?_⟩
    cases front with
    | nil =>
      obtain ⟨rfl, -⟩ := List.cons.inj h
      exact hc
    | cons c₀ front =>
      obtain ⟨rfl, htail⟩ := List.cons.inj h
      exact hcalls front c' back htail

theorem start_builds (package : String) (hlast : (Builder.start package).file.Later last) :
    Fine last (Builder.start package) ∧
      last.Names (Builder.start package).file.name package := by
  have hempty : Fine last {} :=
    { symbols := Nat.le_refl 0
      resolves :=
        { exprs := fun _ h => absurd h (Array.not_mem_empty _)
          types := fun _ h => absurd h (Array.not_mem_empty _)
          fields := fun _ h => absurd h (Array.not_mem_empty _)
          comments := fun _ h => absurd h (Array.not_mem_empty _)
          decls := List.forall_mem_nil _ } }
  obtain ⟨hfine, hname⟩ := ident_builds hfits package hempty { hlast with }
  exact ⟨⟨hfine.symbols, { hfine.resolves with }⟩, hname⟩

end Runs

/-- A built file recovers its texts: the name of the package, and of every call, in the midst of
any others, what the call was given. All that the nodes point to is there, between two characters,
and what an earlier state of the file has for a span or for an identifier, the file has too. -/
theorem built_file_recovers_texts (package : String) (calls : List Call)
    (hsupplied : Supplied [] (Builder.start package) calls)
    (hfits : ((Builder.start package).after calls).file.text.utf8ByteSize < UInt32.size) :
    let file := ((Builder.start package).after calls).file
    file.Names file.name package ∧
      (∀ front c back, calls = front ++ c :: back →
        c.Recovers file (c.run ((Builder.start package).after front)).1) ∧
      file.Every (fun m => file.Resolves m ∧
        Text.OnBoundaries file.text m.span.start.toNat m.span.stop.toNat) ∧
      ∀ front back, calls = front ++ back →
        let earlier := ((Builder.start package).after front).file
        (∀ span s, earlier.textAt? span = some s → file.textAt? span = some s) ∧
          ∀ i s, earlier.nameOf? i = some s → file.nameOf? i = some s := by
  intro file
  obtain ⟨hstart, hname⟩ := start_builds hfits package (Builder.after_later _ calls)
  obtain ⟨hfine, hcalls⟩ :=
    run_builds hfits hstart (List.forall_mem_nil _) hsupplied (.refl file)
  have hkept : file.name = (Builder.start package).file.name := Builder.after_name _ calls
  refine ⟨hkept ▸ hname, hcalls, hfine.resolves.imp fun m hm => ⟨hm, hm.onBoundaries⟩, ?_⟩
  rintro front back rfl
  have hgrown : ((Builder.start package).after front).file.Later file := by
    have h := Builder.after_later ((Builder.start package).after front) back
    rwa [← Builder.after_append] at h
  exact ⟨fun _ _ => hgrown.textAt?, fun i => hgrown.symbols _⟩

/-- Texts with line breaks, quotes and wide characters. An identifier and a line of variables are
handed on. -/
def awkwardCalls : List Call :=
  let b := (Builder.start "p").after [.packageDoc ["/* \"é\"\n */", "//"]]
  let (name, b) := Builder.ident "x\"\ny" b
  let (spec, _) := Builder.valueSpec ["ü", "x\"\ny"] none [] b
  [.packageDoc ["/* \"é\"\n */", "//"], .ident "x\"\ny", .valueSpec ["ü", "x\"\ny"] none [],
    .params [⟨[name], none⟩], .group .vars [spec], .importAs "ß" "a\"b\n`c",
    .taggedField ["x\"\ny"] ⟨0⟩ "`\n`"]

theorem awkwardCalls_recovered :
    let file := ((Builder.start "p").after awkwardCalls).file
    Supplied [] (Builder.start "p") awkwardCalls ∧ file.text.utf8ByteSize < UInt32.size ∧
      (∃ i span, file.Names i "ß" ∧ file.literalValue? span = some "a\"b\n`c") ∧
        ∃ span, file.textAt? span = some "`\n`" := by
  have hnone {given : List Mark} : ∀ m ∈ ([] : List Mark), m ∈ given := List.forall_mem_nil _
  have hsupplied : Supplied [] (Builder.start "p") awkwardCalls := by
    refine ⟨hnone, hnone, hnone, ?_, ?_, hnone, hnone, trivial⟩
    · refine List.forall_mem_singleton.mpr ?_
      exact List.mem_append_left _ (List.mem_append_right _ (.head _))
    · refine List.forall_mem_append.mpr ⟨fun m hm => ?_, hnone⟩
      exact List.mem_append_left _ (List.mem_append_right _ (mem_flatMap_parts hm))
  have hfits : ((Builder.start "p").after awkwardCalls).file.text.utf8ByteSize < UInt32.size := by
    decide +kernel
  obtain ⟨-, hcalls, -⟩ := built_file_recovers_texts "p" awkwardCalls hsupplied hfits
  obtain ⟨_, span, i, _, hpath, hi⟩ :=
    hcalls (awkwardCalls.take 5) (.importAs "ß" "a\"b\n`c") (awkwardCalls.drop 6) rfl
  obtain ⟨_, tag, _, _, _, _, htag⟩ :=
    hcalls (awkwardCalls.take 6) (.taggedField ["x\"\ny"] ⟨0⟩ "`\n`") [] rfl
  exact ⟨hsupplied, hfits, ⟨i, span, hi, hpath⟩, tag, htag⟩

end GoPackages.Source
