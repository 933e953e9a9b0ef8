import Prosemark.Proofs.Transfer

/-!
# The choice of the switch

A source for the standard switch can be written with any other switch that does not occur in it: it
is parsed to the same tree, in which the new switch stands wherever the standard one stood in texts
and phrases (`parse_exchange`). The spans move by what the two switches differ in width, so not at
all when the new switch takes one byte.
-/

namespace Prosemark

variable {sw : Switch} {source : String} {cur next : Cursor}

/-- The source with every standard switch replaced. -/
def Switch.rewritten (sw : Switch) (source : String) : String :=
  source.map (Switch.standard.exchange sw)

/-- Where an offset of a source is in the rewritten one, unless it is inside a character. -/
def Switch.placeIn (sw : Switch) (source : String) (offset : Nat) : Nat :=
  match (Cursor.start source).upTo? offset with
  | some before => width (before.map (Switch.standard.exchange sw))
  | none => offset

theorem Cursor.Passes.upTo?_eq {text : List Char} (h : cur.Passes text next) :
    cur.upTo? next.offset = some text :=
  Cursor.textFrom?_eq_some_iff.2 ⟨next, h, rfl⟩

theorem Switch.placeIn_eq {before : List Char} (sw : Switch)
    (h : (Cursor.start source).Passes before cur) :
    sw.placeIn source cur.offset = width (before.map (Switch.standard.exchange sw)) := by
  rw [placeIn, h.upTo?_eq]

theorem width_map_exchange (h : sw.size = 1) (text : List Char) :
    width (text.map (Switch.standard.exchange sw)) = width text := by
  induction text with
  | nil => rfl
  | cons c cs ih =>
    rw [List.map_cons, width_cons, width_cons, ih]
    by_cases hc : c = Switch.standard.char
    · have hone : Switch.standard.char.utf8Size = 1 := by decide
      have hsize : sw.char.utf8Size = 1 := h
      rw [hc, Switch.exchange_switch, hsize, hone]
    · rw [Switch.exchange_of_ne hc]

theorem Switch.placeIn_eq_id (h : sw.size = 1) (source : String) : sw.placeIn source = id := by
  funext offset
  rw [placeIn]
  split
  · next before hbefore =>
    obtain ⟨next, hp, rfl⟩ := Cursor.textFrom?_eq_some_iff.1 hbefore
    have hoffset : next.offset = 0 + width before := hp.offset_eq
    rw [width_map_exchange h, id, hoffset, Nat.zero_add]
  · rfl

/-- A source stands in the rewritten one from its beginning to its end. -/
def Transfer.rewriting (hfresh : sw.char ∉ source.toList) :
    Transfer .standard source sw (sw.rewritten source) where
  place := sw.placeIn source
  tail := []
  image_in := by
    rintro cur ⟨before, hb⟩
    refine ⟨before.map (Switch.standard.exchange sw), ?_, ?_⟩
    · have hsource : source.toList = before ++ cur.rest := hb.rest_eq
      simp [Cursor.start, Switch.rewritten, String.toList_map, hsource]
    · rw [sw.placeIn_eq hb]
      exact (Nat.zero_add _).symm
  kept := .inr ⟨rfl, hfresh⟩
  seam := isSeam_nil

theorem Switch.placeIn_zero (sw : Switch) (source : String) : sw.placeIn source 0 = 0 :=
  sw.placeIn_eq (.refl (Cursor.start source))

theorem Switch.placeIn_utf8ByteSize (sw : Switch) (source : String) :
    sw.placeIn source source.utf8ByteSize = (sw.rewritten source).utf8ByteSize := by
  rw [← width_toList (sw.rewritten source), Switch.rewritten, String.toList_map]
  exact sw.placeIn_eq (Cursor.start_passes source)

theorem parse_rewritten {tree : Block} (hfresh : sw.char ∉ source.toList)
    (h : parse .standard source = .ok tree) :
    parse sw (sw.rewritten source) =
      .ok (tree.carry (sw.placeIn source) (Switch.standard.exchange sw)) := by
  obtain ⟨⟨hspan, he, htile⟩, hn⟩ := parse_eq_ok_iff_laidOut.1 h
  obtain ⟨span, children, e⟩ := tree
  obtain rfl : span = ⟨0, source.utf8ByteSize⟩ := hspan
  obtain ⟨htile', hn'⟩ := (Transfer.rewriting hfresh).fragments id children
    htile hn (Fragment.NormalAll.unbroken hn)
  have hzero : (Transfer.rewriting hfresh).place 0 = 0 := sw.placeIn_zero source
  have hsize : (Transfer.rewriting hfresh).place source.utf8ByteSize =
      (sw.rewritten source).utf8ByteSize := sw.placeIn_utf8ByteSize source
  rw [hzero, hsize] at htile'
  refine parse_of_laidOut ⟨?_, he, htile'⟩ hn'
  rw [Block.carry, Span.carry, sw.placeIn_zero, sw.placeIn_utf8ByteSize]

/-- A source without the switch, rewritten for it, is parsed to the tree of the source with the
standard switch replaced in its texts and phrases; if the switch takes one byte, the spans stay. -/
theorem parse_exchange {tree : Block} (hfresh : sw.char ∉ source.toList)
    (h : parse .standard source = .ok tree) :
    ∃ rewritten, parse sw (source.map (Switch.standard.exchange sw)) = .ok rewritten ∧
      rewritten.same (tree.carry id (Switch.standard.exchange sw)) = true ∧
      (sw.size = 1 → rewritten = tree.carry id (Switch.standard.exchange sw)) := by
  refine ⟨_, parse_rewritten hfresh h, ?_, ?_⟩
  · exact (parse_eq_ok_iff_laidOut.1 h).1.same_carry _ _ _
  · intro hsize
    rw [Switch.placeIn_eq_id hsize]

/-- With a minus for the switch, no exponent starts where an identifier stands before a switch. -/
theorem parse_exchange_minus :
    ∃ (sw : Switch) (tree : Block), sw.char = '-' ∧
      sw.char ∉ "@a[1e@\x7b@@\x7d +@\"@\"] @|@|".toList ∧
      parse .standard "@a[1e@\x7b@@\x7d +@\"@\"] @|@|" = .ok tree ∧
      ∃ rewritten, parse sw ("@a[1e@\x7b@@\x7d +@\"@\"] @|@|".map (Switch.standard.exchange sw)) =
          .ok rewritten ∧
        rewritten.same (tree.carry id (Switch.standard.exchange sw)) = true ∧
        (sw.size = 1 → rewritten = tree.carry id (Switch.standard.exchange sw)) := by
  have hsome : (parse .standard "@a[1e@\x7b@@\x7d +@\"@\"] @|@|").toOption.isSome = true := by
    decide +kernel
  obtain ⟨tree, htree⟩ := exists_tree hsome
  have hfresh : '-' ∉ "@a[1e@\x7b@@\x7d +@\"@\"] @|@|".toList := by decide
  exact ⟨⟨'-', by decide, by decide⟩, tree, rfl, hfresh, htree, parse_exchange hfresh htree⟩

end Prosemark
