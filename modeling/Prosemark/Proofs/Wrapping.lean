import Prosemark.Proofs.Transfer

/-!
# Documents in braces

Any source that is parsed can be put in braces, after a switch or after the name of a command, if
the braces are padded enough for no prose at its top level to contain the right one (`parse_wrap`).
The fragments of the document become those of the block: what ended at the end of the source ends
before the right brace, and what ended before a switch still does.
-/

namespace Prosemark

variable {sw : Switch} {source : String}

/-- The source in the fence, after the given text. -/
def Fence.wrap (fence : Fence) (before source : String) : String :=
  before ++ fence.enclosing.left ++ source ++ fence.enclosing.right

/-- The block that the fragments of a document are when its source stands in the fence, from the
given offset on. -/
def Block.wrapped (fence : Fence) (offset : Nat) (tree : Block) : Block :=
  ⟨tree.span.carry (offset + ·), Fragment.carryAll (offset + ·) id tree.children, fence.enclosing⟩

theorem Fence.isSeam_right (fence : Fence) (h : fence.delimiter = .brace) :
    IsSeam fence.enclosing.right.toList := by
  rw [Fence.enclosing, String.toList_ofList]
  rintro _ ⟨⟩
  rw [h]
  decide

section Wrapped

variable {fence : Fence} {tree : Block}

/-- The document in braces fills the source from the left brace to its end, and is in normal
form. -/
theorem Block.wrapped_stands (hd : fence.delimiter = .brace) (h : parse sw source = .ok tree)
    (hunbroken : Fragment.Unbroken (some fence) tree.children) (before : String) :
    (tree.wrapped fence (before.utf8ByteSize + (fence.hashes + 1))).Fills sw
        (fence.wrap before source) before.utf8ByteSize (fence.wrap before source).utf8ByteSize ∧
      (tree.wrapped fence (before.utf8ByteSize + (fence.hashes + 1))).Normal sw
        (fence.wrap before source) false := by
  obtain ⟨⟨hspan, -, htile⟩, hn⟩ := parse_eq_ok_iff_laidOut.1 h
  obtain ⟨span, children, e⟩ := tree
  obtain rfl : span = ⟨0, source.utf8ByteSize⟩ := hspan
  have hsize : (before ++ fence.enclosing.left).utf8ByteSize =
      before.utf8ByteSize + (fence.hashes + 1) := by
    rw [String.utf8ByteSize_append, Fence.enclosing, utf8ByteSize_ofList, fence.width_left]
  obtain ⟨htile', hn'⟩ := Transfer.fragments_within (before ++ fence.enclosing.left) _
    (fence.isSeam_right hd) (by simp) htile hn hunbroken
  rw [hsize] at htile' hn'
  have hleft : Covers (fence.wrap before source) before.utf8ByteSize
      (before.utf8ByteSize + (fence.hashes + 1)) fence.enclosing.left := by
    have hassoc : fence.wrap before source =
        before ++ fence.enclosing.left ++ (source ++ fence.enclosing.right) :=
      String.append_assoc
    rw [hassoc, ← hsize]
    exact covers_append _ _ _
  have hright : Covers (fence.wrap before source)
      (before.utf8ByteSize + (fence.hashes + 1) + source.utf8ByteSize)
      (fence.wrap before source).utf8ByteSize fence.enclosing.right := by
    have h := covers_append (before ++ fence.enclosing.left ++ source) fence.enclosing.right ""
    rwa [String.append_empty, String.utf8ByteSize_append (t := source), hsize] at h
  refine ⟨⟨⟨hleft, hright⟩, htile'⟩, fence, hd, rfl, ?_, hn'⟩
  have hstop := hright.stop_eq
  rw [Fence.enclosing, String.toList_ofList] at hstop
  rw [Span.carry, ← hstop, restAt_utf8ByteSize]
  intro _ _
  simp

theorem Opens.isIdContinue_head {d : Delimiter} {cs : List Char} (h : Opens d cs) :
    ∀ c ∈ cs.head?, Charset.isIdContinue c = false := by
  obtain ⟨c, rest, rfl, hc⟩ := h.head
  rintro _ ⟨⟩
  rcases hc with rfl | rfl
  · decide
  · cases d <;> decide

/-- A block that stands right after a switch and a name is the body of a command. -/
theorem Command.stands_of_block {name : String} {block : Block}
    (hname : Lexeme.IsIdentifier name.toList)
    (hswitch : Covers source 0 sw.size sw.text)
    (hcovers : Covers source sw.size (sw.size + name.utf8ByteSize) name)
    (hf : block.Fills sw source (sw.size + name.utf8ByteSize) source.utf8ByteSize)
    (hn : block.Normal sw source false) :
    Command.Fills sw source
        ⟨⟨0, source.utf8ByteSize⟩, name, .unfenced, none, some (.block block)⟩ 0
        source.utf8ByteSize ∧
      Command.Normal sw source false
        ⟨⟨0, source.utf8ByteSize⟩, name, .unfenced, none, some (.block block)⟩ := by
  obtain ⟨start, hstart, ho⟩ := hswitch.exists_stop
  rw [← ho] at hcovers
  obtain ⟨after, hp, hafter, ho'⟩ := hstart.passes_of_covers hcovers
  have hphrase : Text.Fills source ⟨⟨start.offset, after.offset⟩, name, .unfenced⟩ start.offset
      after.offset := by
    have h := fills_unfenced hstart hp
    rwa [String.ofList_toList] at h
  rw [← ho, ← ho'] at hf
  rw [← ho] at hswitch
  obtain ⟨span, children, e⟩ := block
  obtain ⟨fence, hd, rfl, -⟩ := id hn
  obtain ⟨inner, hleft, -⟩ := hafter.passes_of_covers hf.1.1
  have hopens : Opens .brace after.rest := by
    refine ⟨fence, hd, inner.rest, ?_⟩
    rw [hleft.rest_eq, Fence.enclosing, String.toList_ofList]
  have hstop := Command.phraseStop_eq (c := ⟨⟨0, source.utf8ByteSize⟩, name, .unfenced, none,
    some (.block ⟨span, children, fence.enclosing⟩)⟩) hswitch hphrase
  refine ⟨⟨rfl, start.offset, _, after.offset, after.offset, hswitch, hphrase, rfl, hf⟩, ?_,
    trivial, hn⟩
  refine .identifier rfl hname ?_ ?_
  · rw [hstop, hafter.restAt_eq]
    exact hopens.isIdContinue_head
  · rw [Command.attaches_iff hafter hafter hstop hstop]
    refine ⟨?_, by simp [hopens]⟩
    obtain ⟨c, rest, hrest, hc⟩ := hopens.head
    rw [hrest]
    rcases hc with rfl | rfl <;> simp [Delimiter.opening]

end Wrapped

/-- A source that is parsed is parsed in braces as well, when no prose at its top level contains the
right one: to a block after a switch, and to the body of a command after a switch and a name. The
block has the fragments of the document, moved by what stands before them. -/
theorem parse_wrap {tree : Block} (h : parse sw source = .ok tree) (hashes : Nat)
    (hunbroken : Fragment.Unbroken (some ⟨.brace, hashes⟩) tree.children) :
    parse sw (Fence.wrap ⟨.brace, hashes⟩ sw.text source) =
        .ok ⟨⟨0, (Fence.wrap ⟨.brace, hashes⟩ sw.text source).utf8ByteSize⟩,
          [.block (tree.wrapped ⟨.brace, hashes⟩ (sw.size + (hashes + 1)))], .unfenced⟩ ∧
      ∀ name : String, Lexeme.IsIdentifier name.toList →
        parse sw (Fence.wrap ⟨.brace, hashes⟩ (sw.text ++ name) source) =
          .ok ⟨⟨0, (Fence.wrap ⟨.brace, hashes⟩ (sw.text ++ name) source).utf8ByteSize⟩,
            [.command ⟨⟨0, (Fence.wrap ⟨.brace, hashes⟩ (sw.text ++ name) source).utf8ByteSize⟩,
              name, .unfenced, none, some (.block (tree.wrapped ⟨.brace, hashes⟩
                (sw.size + name.utf8ByteSize + (hashes + 1))))⟩], .unfenced⟩ := by
  have hsize : sw.text.utf8ByteSize = sw.size := by
    simp [Switch.text, Switch.size]
  have hswitch : ∀ rest : String, Covers (sw.text ++ rest) 0 sw.size sw.text := by
    intro rest
    have h := covers_append "" sw.text rest
    rwa [String.empty_append, hsize] at h
  refine ⟨?_, fun name hname => ?_⟩
  · obtain ⟨hf, hn⟩ := Block.wrapped_stands rfl h hunbroken sw.text
    rw [hsize] at hf hn
    refine parse_of_laidOut ⟨rfl, rfl, _, ⟨sw.size, ?_, hf⟩, rfl⟩ ⟨hn, by simp, trivial⟩
    rw [Fence.wrap, String.append_assoc, String.append_assoc]
    exact hswitch _
  · obtain ⟨hf, hn⟩ := Block.wrapped_stands rfl h hunbroken (sw.text ++ name)
    rw [String.utf8ByteSize_append, hsize] at hf hn
    have hcovers : Covers (Fence.wrap ⟨.brace, hashes⟩ (sw.text ++ name) source) 0 sw.size
        sw.text := by
      rw [Fence.wrap, String.append_assoc, String.append_assoc, String.append_assoc]
      exact hswitch _
    have hphrase : Covers (Fence.wrap ⟨.brace, hashes⟩ (sw.text ++ name) source) sw.size
        (sw.size + name.utf8ByteSize) name := by
      have h := covers_append sw.text name
        ((Fence.enclosing ⟨.brace, hashes⟩).left ++
          (source ++ (Fence.enclosing ⟨.brace, hashes⟩).right))
      rwa [String.utf8ByteSize_append, hsize, ← String.append_assoc, ← String.append_assoc] at h
    obtain ⟨hf', hn'⟩ := Command.stands_of_block hname hcovers hphrase hf hn
    exact parse_of_laidOut ⟨rfl, rfl, _, hf', rfl⟩ ⟨hn', by simp, trivial⟩

theorem parse_wrap_padded :
    ∃ tree, parse .standard "\x7d @b@#" = .ok tree ∧
      Fragment.Unbroken (some ⟨.brace, 1⟩) tree.children ∧
      parse .standard (Fence.wrap ⟨.brace, 1⟩ (Switch.standard.text) "\x7d @b@#") =
          .ok ⟨⟨0, 11⟩, [.block (tree.wrapped ⟨.brace, 1⟩ 3)], .unfenced⟩ ∧
        parse .standard (Fence.wrap ⟨.brace, 1⟩ (Switch.standard.text ++ "f") "\x7d @b@#") =
          .ok ⟨⟨0, 12⟩, [.command ⟨⟨0, 12⟩, "f", .unfenced, none,
            some (.block (tree.wrapped ⟨.brace, 1⟩ 4))⟩], .unfenced⟩ := by
  have hsome : (parse .standard "\x7d @b@#").toOption.any
      (fun tree => decide (Fragment.Unbroken (some ⟨.brace, 1⟩) tree.children)) = true := by
    decide +kernel
  obtain ⟨tree, htree, hunbroken⟩ := exists_tree_of hsome
  obtain ⟨hblock, hcommand⟩ := parse_wrap htree 1 hunbroken
  exact ⟨tree, htree, hunbroken, hblock, hcommand "f" ⟨'f', [], rfl, by decide, by simp⟩⟩

end Prosemark
