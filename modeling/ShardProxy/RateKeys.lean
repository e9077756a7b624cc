/-
The key of a source.  A source that carries an address is keyed by the leading bits
of it, however it is written and whatever its port; two keys are the same exactly for
the same bits of the same family.  A source that carries none is keyed by its port and
its zone.
-/
import ShardProxy.RateLimit
import ShardProxy.Reference

namespace ShardProxy

open ByteField

/-- Bit `i` of an address, from its first byte's most significant bit on. -/
def ipBit (ip : Bytes) (i : Nat) : Bool :=
  (ip.getD (i / 8) 0).toBitVec.getMsbD (i % 8)

/-- Two addresses have their first `bits` bits in common. -/
def AgreeOn (bits : Nat) (ip other : Bytes) : Prop :=
  ∀ i < bits, ipBit ip i = ipBit other i

section Masks

variable {x y : UInt8} {bits i j : Nat} {ip other : Bytes}

theorem maskByte_bit (hj : j < 8) :
    (maskByte bits i).toBitVec.getMsbD j = decide (8 * i + j < bits) := by
  rw [maskByte]
  split_ifs with hall hnone
  · have hones : ∀ j : Fin 8, (0xFF : UInt8).toBitVec.getMsbD j = true := by decide
    rw [hones ⟨j, hj⟩, decide_eq_true (by omega)]
  · have hzeros : ∀ j : Fin 8, (0 : UInt8).toBitVec.getMsbD j = false := by decide
    rw [hzeros ⟨j, hj⟩, decide_eq_false (by omega)]
  · have hshift : ∀ s j : Fin 8, ((0xFF : UInt8) <<< UInt8.ofNat s).toBitVec.getMsbD j =
        decide (j.val + s.val < 8) := by decide
    obtain ⟨s, hs⟩ : ∃ s : Fin 8, s.val = 8 * i + 8 - bits := ⟨⟨8 * i + 8 - bits, by omega⟩, rfl⟩
    rw [← hs, hshift s ⟨j, hj⟩, decide_eq_decide]
    simp only
    omega

theorem maskByte_full (hall : 8 * i + 8 ≤ bits) : maskByte bits i = 0xFF :=
  if_pos hall

theorem byte_ext (hbits : ∀ j < 8, x.toBitVec.getMsbD j = y.toBitVec.getMsbD j) : x = y := by
  apply UInt8.toBitVec_inj.mp
  apply BitVec.eq_of_getMsbD_eq
  intro j hj
  exact hbits j hj

theorem and_maskByte_bit (hj : j < 8) :
    (x &&& maskByte bits i).toBitVec.getMsbD j =
      (x.toBitVec.getMsbD j && decide (8 * i + j < bits)) := by
  rw [UInt8.toBitVec_and, BitVec.getMsbD_and, maskByte_bit hj]

/-- Masked bytes are equal when the bits that are kept are. -/
theorem and_maskByte_eq_iff :
    x &&& maskByte bits i = y &&& maskByte bits i ↔
      ∀ j < 8, 8 * i + j < bits → x.toBitVec.getMsbD j = y.toBitVec.getMsbD j := by
  constructor
  · intro hmasked j hj hkept
    have hbit := congrArg (fun byte : UInt8 => byte.toBitVec.getMsbD j) hmasked
    simp only [and_maskByte_bit hj, hkept, decide_true, Bool.and_true] at hbit
    exact hbit
  · intro hbits
    apply byte_ext
    intro j hj
    rw [and_maskByte_bit hj, and_maskByte_bit hj]
    by_cases hkept : 8 * i + j < bits
    · rw [hbits j hj hkept]
    · rw [decide_eq_false hkept, Bool.and_false, Bool.and_false]

@[simp]
theorem length_maskIP (ip : Bytes) (bits : Nat) : (maskIP ip bits).length = ip.length :=
  List.length_mapIdx

theorem getElem_maskIP (hi : i < ip.length) (hi' : i < (maskIP ip bits).length) :
    (maskIP ip bits)[i] = ip[i] &&& maskByte bits i :=
  List.getElem_mapIdx

theorem ipBit_at (hi : i < ip.length) (hj : j < 8) :
    ipBit ip (8 * i + j) = (ip[i]).toBitVec.getMsbD j := by
  have hbyte : (8 * i + j) / 8 = i := by omega
  have hoffset : (8 * i + j) % 8 = j := by omega
  rw [ipBit, hbyte, hoffset, List.getD_eq_getElem?_getD, List.getElem?_eq_getElem hi,
    Option.getD_some]

/-- Two addresses of one length have the same masked form exactly when they agree on the
bits of the mask. -/
theorem maskIP_eq_iff (hlength : ip.length = other.length) (hbits : bits ≤ 8 * ip.length) :
    maskIP ip bits = maskIP other bits ↔ AgreeOn bits ip other := by
  constructor
  · intro hmasked k hk
    have hi : k / 8 < ip.length := by omega
    have hj : k % 8 < 8 := Nat.mod_lt _ (by decide)
    have hsplit : 8 * (k / 8) + k % 8 = k := Nat.div_add_mod k 8
    have hbyte : ip[k / 8] &&& maskByte bits (k / 8) =
        other[k / 8] &&& maskByte bits (k / 8) := by
      rw [← getElem_maskIP hi (by rwa [length_maskIP]),
        ← getElem_maskIP (hlength ▸ hi) (by rw [length_maskIP]; exact hlength ▸ hi)]
      exact List.getElem_of_eq hmasked _
    have hbit := and_maskByte_eq_iff.mp hbyte (k % 8) hj (hsplit.symm ▸ hk)
    rw [← ipBit_at hi hj, ← ipBit_at (hlength ▸ hi) hj, hsplit] at hbit
    exact hbit
  · intro hagree
    apply List.ext_getElem
    · rw [length_maskIP, length_maskIP, hlength]
    · intro i hi hi'
      rw [length_maskIP] at hi hi'
      rw [getElem_maskIP hi, getElem_maskIP hi', and_maskByte_eq_iff]
      intro j hj hkept
      rw [← ipBit_at hi hj, ← ipBit_at hi' hj]
      exact hagree _ hkept

/-- A mask that keeps ones in the twelfth byte keeps the first twelve bytes. -/
theorem take_maskIP (hlength : ip.length = 16) (hlast : (maskIP ip bits)[11]? = some 0xFF) :
    (maskIP ip bits).take 12 = ip.take 12 := by
  have h11 : 11 < ip.length := by omega
  have hones : ip[11] &&& maskByte bits 11 = 0xFF := by
    rw [List.getElem?_eq_getElem (by rwa [length_maskIP]), getElem_maskIP h11] at hlast
    exact Option.some.inj hlast
  have hbits : 96 ≤ bits := by
    have hbit := congrArg (fun byte : UInt8 => byte.toBitVec.getMsbD 7) hones
    have hkept : decide (8 * 11 + 7 < bits) = true := by
      simp only [and_maskByte_bit (by decide : 7 < 8)] at hbit
      exact (Bool.and_eq_true_iff.mp hbit).2
    have := of_decide_eq_true hkept
    omega
  have hsame : ∀ x : UInt8, x &&& 0xFF = x := by
    intro x
    apply byte_ext
    intro j hj
    rw [← maskByte_full (show 8 * 0 + 8 ≤ 8 by decide), and_maskByte_bit hj,
      decide_eq_true (by omega), Bool.and_true]
  apply List.ext_getElem
  · rw [List.length_take, List.length_take, length_maskIP]
  · intro i hi hi'
    rw [List.length_take] at hi hi'
    rw [List.getElem_take, List.getElem_take, getElem_maskIP (by omega),
      maskByte_full (by omega), hsame]

theorem to4_eq_none_iff (hlength : ip.length = 16) :
    to4 ip = none ↔ ip.take 12 ≠ ipv4InIPv6 := by
  rw [to4, if_neg (by omega)]
  simp only [hlength, true_and, ite_eq_right_iff, reduceCtorEq, imp_false, ne_eq]

theorem to4_maskIP (hlength : ip.length = 16) (hv6 : to4 ip = none) :
    to4 (maskIP ip bits) = none := by
  rw [to4_eq_none_iff hlength] at hv6
  rw [to4_eq_none_iff (by rwa [length_maskIP])]
  intro hmapped
  have hlast : (maskIP ip bits)[11]? = some 0xFF := by
    rw [← List.getElem?_take_of_lt (by decide : 11 < 12), hmapped]
    rfl
  rw [take_maskIP hlength hlast] at hmapped
  exact hv6 hmapped

end Masks

/-- Keys are told apart by the texts of addresses: an IPv4 address is written without a
colon and an IPv6 address with one, and no two of a family are written alike. -/
structure PrintsIPs (env : Env) : Prop where
  v4_colon : ∀ ip : Bytes, ip.length = 4 → ':' ∉ (env.ipString ip).toList
  v6_colon : ∀ ip : Bytes, ip.length = 16 → to4 ip = none → ':' ∈ (env.ipString ip).toList
  v4_inj : ∀ ip other : Bytes, ip.length = 4 → other.length = 4 →
    env.ipString ip = env.ipString other → ip = other
  v6_inj : ∀ ip other : Bytes, ip.length = 16 → other.length = 16 → to4 ip = none →
    to4 other = none → env.ipString ip = env.ipString other → ip = other

/-- The bits of an IPv4 address that count at a prefix length. -/
def v4PrefixBits (prefixBits : Int) : Nat :=
  if 96 ≤ prefixBits ∧ prefixBits ≤ 128 then (prefixBits - 96).toNat else 32

/-- Two addresses are of one family, IPv4-mapped ones counted as IPv4, and share their
prefix. -/
def SamePrefix (prefixBits : Int) (ip other : Bytes) : Prop :=
  match to4 ip, to4 other with
  | some v4, some v4' => AgreeOn (v4PrefixBits prefixBits) v4 v4'
  | none, none => AgreeOn prefixBits.toNat ip other
  | _, _ => False

/-- An address `net` makes sense of. -/
def ValidIP (ip : Bytes) : Prop :=
  ip.length = 4 ∨ ip.length = 16

/-- A source that carries no IP, its port if it has one, and its zone. -/
inductive NoIP : NetAddr → Option Nat → String → Prop where
  | udp (port : Nat) (zone : String) : NoIP (.udp none port zone) (some port) zone
  | tcp (port : Nat) (zone : String) : NoIP (.tcp none port zone) (some port) zone
  | ip (zone : String) : NoIP (.ip none zone) none zone

/-- The zone of an address without a port that is written like a port and a zone. -/
def ZoneLike (port : Nat) (zone zone' : String) : Prop :=
  zone ≠ "" ∧ ':' ∉ zone.toList ∧ zone' = zone ++ ":" ++ toString port

/-- Two sources without an IP are written alike. -/
def WrittenAlike (zone zone' : String) : Option Nat → Option Nat → Prop
  | some port, some port' => port = port' ∧ zone = zone'
  | none, none => zone = zone'
  | some port, none => ZoneLike port zone zone'
  | none, some port' => ZoneLike port' zone' zone

section Keys

variable {env : Env} {prefixBits : Int} {a b : NetAddr} {ip other : Bytes}

theorem length_of_to4 {v4 : Bytes} (hv4 : to4 ip = some v4) : v4.length = 4 := by
  rw [to4] at hv4
  split_ifs at hv4 with h4 h16
  · cases hv4
    exact h4
  · cases hv4
    rw [List.length_drop, h16.1]

theorem length_of_v6 (hvalid : ValidIP ip) (hv6 : to4 ip = none) : ip.length = 16 := by
  rcases hvalid with h4 | h16
  · rw [to4, if_pos h4] at hv6
    cases hv6
  · exact h16

theorem sourceKey_v4 {v4 : Bytes} (hip : addrToIP env a = some ip) (hv4 : to4 ip = some v4) :
    sourceKey env a prefixBits = env.ipString (maskIP v4 (v4PrefixBits prefixBits)) := by
  rw [sourceKey, hip]
  simp only [hv4]
  congr 2
  rw [v4PrefixBits]
  split_ifs <;> omega

theorem sourceKey_v6 (hip : addrToIP env a = some ip) (hvalid : ValidIP ip)
    (hv6 : to4 ip = none) :
    sourceKey env a prefixBits = env.ipString (maskIP ip prefixBits.toNat) := by
  rw [sourceKey, hip]
  simp only [hv6, length_of_v6 hvalid hv6, ↓reduceIte]

theorem zoneText_inj {zone zone' : String} : zoneText zone = zoneText zone' ↔ zone = zone' := by
  by_cases hzone : zone = "" <;> by_cases hzone' : zone' = "" <;>
    simp [zoneText, hzone, hzone', String.ext_iff]

theorem zoneText_ne_bracket (zone : String) (rest : List Char) :
    (zoneText zone).toList ≠ '[' :: rest := by
  by_cases hzone : zone = "" <;> simp [zoneText, hzone]

theorem joinHostPort_toList (host : String) (port : Nat) :
    (joinHostPort host port).toList =
      (if ':' ∈ host.toList then '[' :: (host.toList ++ [']']) else host.toList) ++
        ':' :: (toString port).toList := by
  rw [joinHostPort]
  split_ifs <;> simp

theorem digits_inj {port port' : Nat} : toString port = toString port' ↔ port = port' := by
  refine ⟨fun htext => ?_, fun hport => hport ▸ rfl⟩
  have hdigits := congrArg (fun text : String => Nat.ofDigitChars 10 text.toList 0) htext
  simpa [Nat.toString_eq_ofList_toDigits] using hdigits

theorem colon_not_mem_digits (port : Nat) : ':' ∉ (toString port).toList := by
  intro hcolon
  rw [Nat.toString_eq_ofList_toDigits, String.toList_ofList] at hcolon
  exact absurd (Nat.isDigit_of_mem_toDigits (by decide) (by decide) hcolon) (by decide)

/-- The last colon of a text can be found. -/
theorem lastColon_inj {front front' rest rest' : List Char} (hrest : ':' ∉ rest)
    (hrest' : ':' ∉ rest') (htext : front ++ ':' :: rest = front' ++ ':' :: rest') :
    front = front' ∧ rest = rest' := by
  rcases List.append_eq_append_iff.mp htext with ⟨mid, hfront, htail⟩ | ⟨mid, hfront, htail⟩
  · cases mid with
    | nil => simpa [hfront] using htail
    | cons c mid =>
        rw [List.cons_append] at htail
        exact absurd ((List.cons.inj htail).2 ▸ List.mem_append_right mid List.mem_cons_self) hrest
  · cases mid with
    | nil => simpa [hfront, eq_comm] using htail
    | cons c mid =>
        rw [List.cons_append] at htail
        exact absurd ((List.cons.inj htail).2 ▸ List.mem_append_right mid List.mem_cons_self) hrest'

theorem joinHostPort_inj {zone zone' : String} {port port' : Nat} :
    joinHostPort (zoneText zone) port = joinHostPort (zoneText zone') port' ↔
      port = port' ∧ zone = zone' := by
  refine ⟨fun htext => ?_, fun hboth => by rw [hboth.1, hboth.2]⟩
  have hlist := congrArg String.toList htext
  rw [joinHostPort_toList, joinHostPort_toList] at hlist
  obtain ⟨hhost, hport⟩ :=
    lastColon_inj (colon_not_mem_digits port) (colon_not_mem_digits port') hlist
  refine ⟨digits_inj.mp (String.toList_inj.mp hport), zoneText_inj.mp (String.toList_inj.mp ?_)⟩
  split_ifs at hhost
  · exact List.append_cancel_right (List.cons.inj hhost).2
  · exact absurd hhost.symm (zoneText_ne_bracket zone' _)
  · exact absurd hhost (zoneText_ne_bracket zone _)
  · exact hhost

theorem joinHostPort_eq_zone {zone zone' : String} {port : Nat} :
    joinHostPort (zoneText zone) port = zoneText zone' ↔ ZoneLike port zone zone' := by
  by_cases hzone : zone = ""
  · subst hzone
    by_cases hzone' : zone' = "" <;>
      simp [joinHostPort, zoneText, ZoneLike, hzone', String.ext_iff]
  · by_cases hcolon : ':' ∈ zone.toList
    · refine iff_of_false (fun htext => ?_) fun hlike => hlike.2.1 hcolon
      have hlist := congrArg String.toList htext
      rw [joinHostPort_toList, if_pos (by simp [zoneText, hzone, hcolon]),
        List.cons_append] at hlist
      exact zoneText_ne_bracket zone' _ hlist.symm
    · rw [ZoneLike, eq_comm]
      by_cases hzone' : zone' = "" <;>
        simp [joinHostPort, zoneText, hzone, hzone', hcolon, String.ext_iff]

theorem sourceKey_noIP {port port' : Option Nat} {zone zone' : String} (ha : NoIP a port zone)
    (hb : NoIP b port' zone') :
    sourceKey env a prefixBits = sourceKey env b prefixBits ↔
      WrittenAlike zone zone' port port' := by
  cases ha with
  | ip =>
      cases hb with
      | ip => exact zoneText_inj
      | udp => exact eq_comm.trans joinHostPort_eq_zone
      | tcp => exact eq_comm.trans joinHostPort_eq_zone
  | udp =>
      cases hb with
      | ip => exact joinHostPort_eq_zone
      | udp => exact joinHostPort_inj
      | tcp => exact joinHostPort_inj
  | tcp =>
      cases hb with
      | ip => exact joinHostPort_eq_zone
      | udp => exact joinHostPort_inj
      | tcp => exact joinHostPort_inj

variable (hprints : PrintsIPs env)

include hprints

/-- Masked addresses of one family are written alike exactly when they agree. -/
theorem PrintsIPs.v4_iff {bits : Nat} (hip : ip.length = 4) (hother : other.length = 4)
    (hbits : bits ≤ 32) :
    env.ipString (maskIP ip bits) = env.ipString (maskIP other bits) ↔ AgreeOn bits ip other := by
  rw [← maskIP_eq_iff (hip.trans hother.symm) (by omega)]
  constructor
  · exact hprints.v4_inj _ _ (by rwa [length_maskIP]) (by rwa [length_maskIP])
  · exact congrArg env.ipString

theorem PrintsIPs.v6_iff {bits : Nat} (hip : ip.length = 16) (hother : other.length = 16)
    (hv6 : to4 ip = none) (hv6' : to4 other = none) (hbits : bits ≤ 128) :
    env.ipString (maskIP ip bits) = env.ipString (maskIP other bits) ↔ AgreeOn bits ip other := by
  rw [← maskIP_eq_iff (hip.trans hother.symm) (by omega)]
  constructor
  · exact hprints.v6_inj _ _ (by rwa [length_maskIP]) (by rwa [length_maskIP])
      (to4_maskIP hip hv6) (to4_maskIP hother hv6')
  · exact congrArg env.ipString

theorem PrintsIPs.v4_ne_v6 {bits bits' : Nat} (hip : ip.length = 4) (hother : other.length = 16)
    (hv6 : to4 other = none) :
    env.ipString (maskIP ip bits) ≠ env.ipString (maskIP other bits') := by
  intro hsame
  have hcolon := hprints.v6_colon (maskIP other bits') (by rwa [length_maskIP])
    (to4_maskIP hother hv6)
  rw [← hsame] at hcolon
  exact hprints.v4_colon (maskIP ip bits) (by rwa [length_maskIP]) hcolon

/-- Sources with addresses share a key exactly when they share a prefix; sources without,
when they are written alike. -/
theorem sourceKey_eq_iff (hlow : 1 ≤ prefixBits) (hhigh : prefixBits ≤ 128) (a b : NetAddr) :
    (∀ ip other, addrToIP env a = some ip → addrToIP env b = some other → ValidIP ip →
        ValidIP other →
        (sourceKey env a prefixBits = sourceKey env b prefixBits ↔
          SamePrefix prefixBits ip other)) ∧
      ∀ port port' zone zone', NoIP a port zone → NoIP b port' zone' →
        (sourceKey env a prefixBits = sourceKey env b prefixBits ↔
          WrittenAlike zone zone' port port') := by
  refine ⟨?_, fun port port' zone zone' ha hb => sourceKey_noIP ha hb⟩
  intro ip other hip hother hvalid hvalid'
  have hv4Bits : v4PrefixBits prefixBits ≤ 32 := by
    rw [v4PrefixBits]
    split_ifs <;> omega
  rw [SamePrefix]
  cases hv4 : to4 ip with
  | some v4 =>
      rw [sourceKey_v4 hip hv4]
      cases hv4' : to4 other with
      | some v4' =>
          rw [sourceKey_v4 hother hv4']
          exact hprints.v4_iff (length_of_to4 hv4) (length_of_to4 hv4') hv4Bits
      | none =>
          rw [sourceKey_v6 hother hvalid' hv4']
          have hv6 := length_of_v6 hvalid' hv4'
          exact iff_of_false (hprints.v4_ne_v6 (length_of_to4 hv4) hv6 hv4') id
  | none =>
      rw [sourceKey_v6 hip hvalid hv4]
      cases hv4' : to4 other with
      | some v4' =>
          rw [sourceKey_v4 hother hv4']
          have hv6 := length_of_v6 hvalid hv4
          exact iff_of_false (hprints.v4_ne_v6 (length_of_to4 hv4') hv6 hv4).symm id
      | none =>
          rw [sourceKey_v6 hother hvalid' hv4']
          exact hprints.v6_iff (length_of_v6 hvalid hv4) (length_of_v6 hvalid' hv4') hv4 hv4'
            (by omega)

end Keys

section Sample

open Reference

/-- An address as two hexadecimal digits and a separator for every byte. -/
def hexText (sep : Char) (ip : Bytes) : List Char :=
  ip.flatMap fun byte => [Nat.digitChar (byte.toNat / 16), Nat.digitChar (byte.toNat % 16), sep]

theorem digitChar_inj : ∀ m n : Fin 16, Nat.digitChar m = Nat.digitChar n → m = n := by
  decide

theorem hexText_inj {sep : Char} {ip other : Bytes} (htext : hexText sep ip = hexText sep other) :
    ip = other := by
  induction ip generalizing other with
  | nil =>
      cases other with
      | nil => rfl
      | cons byte other => cases htext
  | cons byte ip ih =>
      cases other with
      | nil => cases htext
      | cons byte' other =>
          rw [hexText, hexText, List.flatMap_cons, List.flatMap_cons] at htext
          obtain ⟨hhigh, hlow, -, hrest⟩ : Nat.digitChar (byte.toNat / 16) =
              Nat.digitChar (byte'.toNat / 16) ∧ Nat.digitChar (byte.toNat % 16) =
              Nat.digitChar (byte'.toNat % 16) ∧ sep = sep ∧
              hexText sep ip = hexText sep other := by
            simpa [hexText] using htext
          have hbyte := byte.toNat_lt
          have hbyte' := byte'.toNat_lt
          have hhigh' :=
            digitChar_inj ⟨byte.toNat / 16, by omega⟩ ⟨byte'.toNat / 16, by omega⟩ hhigh
          have hlow' := digitChar_inj ⟨byte.toNat % 16, by omega⟩ ⟨byte'.toNat % 16, by omega⟩ hlow
          have hsame : byte = byte' := by
            apply UInt8.toNat_inj.mp
            have := Fin.mk.inj hhigh'
            have := Fin.mk.inj hlow'
            omega
          rw [hsame, ih hrest]

/-- Addresses in hexadecimal, with dots for IPv4 and colons for IPv6. -/
def hexEnv : Env :=
  { Reference.env with
    ipString := fun ip => String.ofList (hexText (if to4 ip = none then ':' else '.') ip) }

theorem hexEnv_ipString_v4 {ip : Bytes} (hlength : ip.length = 4) :
    (hexEnv.ipString ip).toList = hexText '.' ip := by
  have hv4 : to4 ip ≠ none := by
    rw [to4, if_pos hlength]
    exact Option.some_ne_none _
  simp only [hexEnv, hv4, ↓reduceIte, String.toList_ofList]

theorem hexEnv_ipString_v6 {ip : Bytes} (hv6 : to4 ip = none) :
    (hexEnv.ipString ip).toList = hexText ':' ip := by
  simp only [hexEnv, hv6, ↓reduceIte, String.toList_ofList]

theorem hexEnv_printsIPs : PrintsIPs hexEnv where
  v4_colon ip hlength := by
    have hdigit : ∀ n : Fin 16, ':' ≠ Nat.digitChar n := by decide
    rw [hexEnv_ipString_v4 hlength, hexText, List.mem_flatMap]
    rintro ⟨byte, -, hmem⟩
    have hbyte := byte.toNat_lt
    simp only [List.mem_cons, List.not_mem_nil, or_false] at hmem
    rcases hmem with hhigh | hlow | hdot
    · exact hdigit ⟨byte.toNat / 16, by omega⟩ hhigh
    · exact hdigit ⟨byte.toNat % 16, by omega⟩ hlow
    · exact absurd hdot (by decide)
  v6_colon ip hlength hv6 := by
    rw [hexEnv_ipString_v6 hv6, hexText, List.mem_flatMap]
    obtain ⟨byte, hbyte⟩ := List.exists_mem_of_length_pos (by omega : 0 < ip.length)
    exact ⟨byte, hbyte, by simp⟩
  v4_inj ip other hip hother hsame := by
    have htext : hexText '.' ip = hexText '.' other := by
      rw [← hexEnv_ipString_v4 hip, hsame, hexEnv_ipString_v4 hother]
    exact hexText_inj htext
  v6_inj ip other _ _ hv6 hv6' hsame := by
    have htext : hexText ':' ip = hexText ':' other := by
      rw [← hexEnv_ipString_v6 hv6, hsame, hexEnv_ipString_v6 hv6']
    exact hexText_inj htext

instance (bits : Nat) (ip other : Bytes) : Decidable (AgreeOn bits ip other) :=
  inferInstanceAs (Decidable (∀ i < bits, _))

/-- Two hosts of one network have one key, two ports without an address have two. -/
theorem sourceKey_eq_iff_sample :
    sourceKey hexEnv (source 1) 64 = sourceKey hexEnv (source 2) 64 ∧
      sourceKey hexEnv (.udp none 1 "a") 64 = sourceKey hexEnv (.tcp none 1 "a") 64 ∧
      sourceKey hexEnv (.udp none 1 "") 64 ≠ sourceKey hexEnv (.tcp none 2 "") 64 := by
  have hlow : (1 : Int) ≤ 64 := by decide
  have hhigh : (64 : Int) ≤ 128 := by decide
  refine ⟨?_, ?_, ?_⟩
  · have hkeys := (sourceKey_eq_iff hexEnv_printsIPs hlow hhigh (source 1) (source 2)).1
    refine (hkeys _ _ rfl rfl (Or.inr rfl) (Or.inr rfl)).mpr ?_
    have hagree : AgreeOn 64 [0x20, 0x01, 0x0D, 0xB8, 0, 0, 0, 0, 0, 0, 0, 0, 0, 0, 0, 1]
      [0x20, 0x01, 0x0D, 0xB8, 0, 0, 0, 0, 0, 0, 0, 0, 0, 0, 0, 2] := by decide +kernel
    exact hagree
  · exact ((sourceKey_eq_iff hexEnv_printsIPs hlow hhigh _ _).2 _ _ _ _ (.udp 1 "a")
      (.tcp 1 "a")).mpr ⟨rfl, rfl⟩
  · have hports := (sourceKey_eq_iff hexEnv_printsIPs hlow hhigh _ _).2 _ _ _ _ (.udp 1 "")
      (.tcp 2 "")
    exact fun hsame => absurd (hports.mp hsame).1 (by decide)

/-- Two sources that carry no IP have two keys. -/
theorem portless_keys_differ :
    addrToIP Reference.env (.udp none 1 "") = none ∧
      addrToIP Reference.env (.udp none 2 "") = none ∧
      sourceKey Reference.env (.udp none 1 "") 64 ≠
        sourceKey Reference.env (.udp none 2 "") 64 := by
  decide +kernel

end Sample

end ShardProxy
