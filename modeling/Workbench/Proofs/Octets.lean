import Workbench.Text.Blank
import Workbench.Text.Utf8

/-!
# Octets of a text

The octets of a text are read back as the text, so that they tell it. A text without carriage
returns stays as it is when line ends are made uniform.
-/

namespace Workbench.Text

theorem toList_loop (bs : ByteArray) (i : Nat) (done : List UInt8) :
    ByteArray.toList.loop bs i done = done.reverse ++ bs.data.toList.drop i := by
  fun_induction ByteArray.toList.loop bs i done with
  | case1 i done h ih =>
    have hi : i < bs.data.toList.length := by simpa using h
    rw [ih, List.drop_eq_getElem_cons hi]
    simp [ByteArray.get!, getElem!_pos bs.data i h]
  | case2 i done h => rw [List.drop_eq_nil_of_le (by simpa using h), List.append_nil]

theorem toList_toUTF8 (bs : ByteArray) : bs.toList = bs.data.toList := by
  rw [ByteArray.toList, toList_loop]
  rfl

theorem ofOctets?_octets (s : String) : ofOctets? (octets s) = some s := by
  have hround : (octets s).map UInt8.ofNat = s.toByteArray.data.toList := by
    rw [octets, List.map_map, show s.toUTF8.toList = s.toByteArray.data.toList from
      toList_toUTF8 _]
    exact List.map_id'' (fun b => by simp) _
  rw [ofOctets?, hround]
  simp [String.fromUTF8?, s.isValidUTF8]
  rfl

theorem octets_injective {s t : String} (h : octets s = octets t) : s = t :=
  Option.some.inj (by rw [← ofOctets?_octets s, h, ofOctets?_octets])

theorem lineFeeds_eq {cs : List Char} (h : '\r' ∉ cs) : lineFeeds cs = cs := by
  fun_induction lineFeeds cs with
  | case1 => rfl
  | case2 rest => exact absurd List.mem_cons_self h
  | case3 c rest _ ih =>
    rw [ih fun hr => h (List.mem_cons_of_mem c hr), if_neg]
    rintro hc
    exact h (beq_iff_eq.1 hc ▸ List.mem_cons_self)

theorem withLineFeeds_eq {s : String} (h : '\r' ∉ s.toList) : withLineFeeds s = s := by
  rw [withLineFeeds, lineFeeds_eq h, String.ofList_toList]

end Workbench.Text
