/-
The object bound as the TCP lanes apply it.  The record loops allow a submitter
its own bound and the largest envelope on top of it; the framed loop holds the
whole payload of a BEEF frame to the configured bound.  A frame whose payload is
longer than that is cut off although the plane would take its object.
-/
import ShardProxy.PreFraming
import ShardProxy.TcpLanes

namespace ShardProxy

open ByteField StreamLoop

/-- What the object reader promises of records: they start with the tag, their
envelope is bounded, and one within the maximum is split off the stream whole. -/
structure StreamLaws (env : Env) (fmt : Objfmt) : Prop where
  tag : ∀ {rec record n}, env.decodeBEEFRecord rec = some (record, n) →
    4 ≤ rec.length ∧ uint16At rec 0 = beefRecordTag
  envelope : ∀ {rec record}, env.decodeBEEFRecord rec = some (record, rec.length) →
    rec.length ≤ record.object.length + beefRecordMaxEnvelope
  next : ∀ {rec record}, env.decodeBEEFRecord rec = some (record, rec.length) →
    ∀ {maximum : Int}, (rec.length : Int) ≤ maximum → ∀ rest,
      fmt.next .beef maximum (rec ++ rest) = .ok (rec, rest)

/-- A FrameVer 0x09 frame on the wire: its header declares its payload. -/
structure BEEFWire (raw payload : Bytes) : Prop where
  magic : uint32At raw 0 = magicBSV
  version : byteAt raw 6 = frameVerV9
  declared : (uint32At raw 88).toNat = payload.length
  size : raw.length = headerSize + payload.length
  payload : raw.drop headerSize = payload

/-- How an object travels: as a record, or as a frame. -/
inductive Carried where
  | record (rec : Bytes)
  | frame (raw payload : Bytes)

section Bounds

variable (env : Env) (fmt : Objfmt) (fw : Forwarder) (remote : NetAddr)

/-- A record with an object its submitter is allowed. -/
def AllowedRecord (rec : Bytes) : Prop :=
  ∃ record, env.decodeBEEFRecord rec = some (record, rec.length) ∧
    (record.object.length : Int) ≤ beefObjectBoundFor fw (some remote)

/-- An object its submitter is allowed, in a payload the stream allows. -/
def Carried.Allowed : Carried → Prop
  | .record rec => AllowedRecord env fw remote rec ∧ rec.length ≤ defaultMaxObject
  | .frame raw payload => BEEFWire raw payload ∧ payload.length ≤ defaultMaxObject ∧
      (AllowedRecord env fw remote payload ∨
        (payload.length : Int) ≤ beefObjectBoundFor fw (some remote))

/-- A loop takes the item off the stream whole, hands it on and goes on behind it. -/
def Reads (conn : Nat → Bytes → List Handed × Option Close)
    (after : Nat → Bytes → List Handed × Option Close) (bytes : Bytes) (handed : Handed) : Prop :=
  ∀ fuel rest, conn (fuel + 1) (bytes ++ rest) =
    (handed :: (after fuel rest).1, (after fuel rest).2)

/-- Every lane that can carry the item reads it, as the first of its connection
and later. -/
def Carried.Honoured (cls : IngressClass) (maxObject : Int) : Carried → Prop
  | .record rec =>
      Reads (loop (beefNext fmt fw remote cls)) (loop (beefNext fmt fw remote cls)) rec
          (.dispatchClass rec cls) ∧
        Reads (tcpHandleConn fmt fw remote cls) (loop (beefNext fmt fw remote cls)) rec
          (.dispatchClass rec cls) ∧
        Reads (objectHandleConn fmt fw remote .beef maxObject)
          (objectHandleConn fmt fw remote .beef maxObject) rec (.dispatchClass rec .beef)
  | .frame raw _ =>
      Reads (loop (framedNext fmt fw cls)) (loop (framedNext fmt fw cls)) raw
          (.dispatchClass raw cls) ∧
        Reads (tcpHandleConn fmt fw remote cls) (loop (framedNext fmt fw cls)) raw
          (.dispatchClass raw cls)

/-- A frame with a payload over the configured bound. -/
def Carried.OverOpenBound : Carried → Prop
  | .record _ => False
  | .frame _ payload => fw.beefMaxObject < (payload.length : Int)

variable {env fmt fw remote} {cls : IngressClass}

theorem framedNext_beef {raw payload : Bytes} (hwire : BEEFWire raw payload)
    (hceiling : payload.length ≤ defaultMaxObject) (rest : Bytes) :
    framedNext fmt fw cls (raw ++ rest) =
      if 0 < fw.beefMaxObject ∧ fw.beefMaxObject < (payload.length : Int) then .error .beefBound
      else .ok (.dispatchClass raw cls, rest) := by
  have hshape : frameShape (byteAt raw 6) = some (headerSize, 88) := by
    rw [hwire.version]
    rfl
  have hdeclared := hwire.declared
  have hsize : raw.length = headerSize + (uint32At raw 88).toNat := by
    rw [hdeclared]
    exact hwire.size
  rw [framedNext_frame hwire.magic hshape hsize (hdeclared.symm ▸ hceiling), hdeclared]
  simp only [hwire.version, true_and]

/-- A stream that starts with the magic does not start with the record tag. -/
theorem tag_ne_of_magic {stream : Bytes} (hlength : 4 ≤ stream.length)
    (hmagic : uint32At stream 0 = magicBSV) : uint16At stream 0 ≠ beefRecordTag := by
  match stream, hlength with
  | first :: second :: third :: fourth :: rest, _ =>
      intro htag
      have hread := congrArg UInt32.toNat hmagic
      have hhead := congrArg UInt16.toNat htag
      simp only [uint32At, uint16At, field, List.drop_zero, List.take_succ_cons, List.take_zero,
        readNat, List.foldl_cons, List.foldl_nil, magicBSV, beefRecordTag, UInt32.toNat_ofNat,
        UInt16.toNat_ofNat, UInt32.toNat_ofNat', UInt16.toNat_ofNat'] at hread hhead
      have hfirst := first.toNat_lt
      have hsecond := second.toNat_lt
      have hthird := third.toNat_lt
      have hfourth := fourth.toNat_lt
      omega

/-- The bound of a record reader leaves room for an allowed object's envelope. -/
theorem length_le_recordBound (hlaws : StreamLaws env fmt) (hbound : 0 < fw.beefMaxObject)
    {rec : Bytes} (hrec : AllowedRecord env fw remote rec) :
    0 < beefRecordBound fw (some remote) ∧
      (rec.length : Int) ≤ beefRecordBound fw (some remote) := by
  obtain ⟨record, hdecode, hobject⟩ := hrec
  have henvelope := hlaws.envelope hdecode
  have hpos : 0 < beefObjectBoundFor fw (some remote) :=
    Int.lt_of_lt_of_le hbound (beefMaxObject_le_bound fw (some remote))
  rw [beefRecordBound, if_neg (Int.not_le.mpr hpos)]
  omega

theorem beefNext_record (hlaws : StreamLaws env fmt) (hbound : 0 < fw.beefMaxObject)
    {rec : Bytes} (hrec : AllowedRecord env fw remote rec) (rest : Bytes) :
    beefNext fmt fw remote cls (rec ++ rest) = .ok (.dispatchClass rec cls, rest) := by
  obtain ⟨hpos, hfits⟩ := length_le_recordBound hlaws hbound hrec
  obtain ⟨record, hdecode, _⟩ := hrec
  simp only [beefNext, hpos, ↓reduceIte, hlaws.next hdecode hfits rest]

theorem objectNext_record (hlaws : StreamLaws env fmt) (hbound : 0 < fw.beefMaxObject)
    {rec : Bytes} (hrec : AllowedRecord env fw remote rec) (maxObject : Int) (rest : Bytes) :
    objectNext fmt fw remote .beef maxObject (rec ++ rest) =
      .ok (.dispatchClass rec .beef, rest) := by
  obtain ⟨hpos, hfits⟩ := length_le_recordBound hlaws hbound hrec
  obtain ⟨record, hdecode, _⟩ := hrec
  simp only [objectNext, hpos, and_self, ↓reduceIte, hlaws.next hdecode hfits rest]

/-- A connection that starts with a record is read by the record loop. -/
theorem tcpHandleConn_record (hlaws : StreamLaws env fmt) {rec : Bytes}
    (hrec : AllowedRecord env fw remote rec) (fuel : Nat) (rest : Bytes) :
    tcpHandleConn fmt fw remote cls fuel (rec ++ rest) =
      loop (beefNext fmt fw remote cls) fuel (rec ++ rest) := by
  obtain ⟨record, hdecode, _⟩ := hrec
  obtain ⟨hfour, htag⟩ := hlaws.tag hdecode
  have hlength : ¬ (rec ++ rest).length < 4 := by
    rw [List.length_append]
    omega
  have hstart : uint16At (rec ++ rest) 0 = beefRecordTag := by
    rw [uint16At, field_append_left (by omega)]
    exact htag
  rw [tcpHandleConn, if_neg hlength, if_pos hstart]

/-- A connection that starts with a frame is read by the framed loop. -/
theorem tcpHandleConn_frame {raw payload : Bytes} (hwire : BEEFWire raw payload) (fuel : Nat)
    (rest : Bytes) :
    tcpHandleConn fmt fw remote cls fuel (raw ++ rest) =
      loop (framedNext fmt fw cls) fuel (raw ++ rest) := by
  have hheader : headerSize ≤ raw.length := by
    rw [hwire.size]
    exact Nat.le_add_right _ _
  have hfour : 4 ≤ raw.length := Nat.le_trans (by decide) hheader
  have hlength : 4 ≤ (raw ++ rest).length := by
    rw [List.length_append]
    omega
  have hmagic : uint32At (raw ++ rest) 0 = magicBSV := by
    rw [uint32At, field_append_left hfour]
    exact hwire.magic
  rw [tcpHandleConn, if_neg (Nat.not_lt.mpr hlength), if_neg (tag_ne_of_magic hlength hmagic),
    if_pos hmagic]

/-- Which allowed objects the TCP lanes read: all of them, but for a frame with a
payload over the configured bound. -/
theorem tcpLanes_honour_iff (hlaws : StreamLaws env fmt) (hbound : 0 < fw.beefMaxObject)
    {item : Carried} (hallowed : item.Allowed env fw remote) (cls : IngressClass)
    (maxObject : Int) :
    item.Honoured fmt fw remote cls maxObject ↔ ¬ item.OverOpenBound fw := by
  cases item with
  | record rec =>
      obtain ⟨hrec, _⟩ := hallowed
      refine ⟨fun _ hover => hover, fun _ => ⟨?_, ?_, ?_⟩⟩
      · exact fun fuel rest => loop_of_ok (beefNext_record hlaws hbound hrec rest) fuel
      · intro fuel rest
        rw [tcpHandleConn_record hlaws hrec]
        exact loop_of_ok (beefNext_record hlaws hbound hrec rest) fuel
      · exact fun fuel rest => loop_of_ok (objectNext_record hlaws hbound hrec maxObject rest) fuel
  | frame raw payload =>
      obtain ⟨hwire, hceiling, _⟩ := hallowed
      constructor
      · rintro ⟨hreads, _⟩ hover
        have hnext : framedNext fmt fw cls (raw ++ []) = _ := framedNext_beef hwire hceiling []
        rw [if_pos ⟨hbound, hover⟩] at hnext
        have hread := hreads 0 []
        rw [loop_of_error hnext] at hread
        cases hread
      · intro hwithin
        have hnext : ∀ rest, framedNext fmt fw cls (raw ++ rest) =
            .ok (.dispatchClass raw cls, rest) := by
          intro rest
          rw [framedNext_beef hwire hceiling, if_neg fun hover => hwithin hover.2]
        refine ⟨fun fuel rest => loop_of_ok (hnext rest) fuel, fun fuel rest => ?_⟩
        rw [tcpHandleConn_frame hwire]
        exact loop_of_ok (hnext rest) fuel

end Bounds

section Sample

/-- A reader of records; the other classes are left out. -/
def Reference.objfmt : Objfmt where
  next cls maximum stream :=
    match cls, Reference.decodeBEEFRecord stream with
    | .beef, some (_, n) =>
        if (n : Int) ≤ maximum then .ok (stream.take n, stream.drop n) else .error .tooLarge
    | _, _ => .error .other
  multicastBytes _ _ := none
  msgTypeSubtreeGroupAnnounce := 0x30
  announce_ne := by
    intro version hversion
    simp only [List.mem_cons, List.not_mem_nil, or_false] at hversion
    rcases hversion with rfl | rfl | rfl | rfl | rfl | rfl <;> decide

theorem Reference.streamLaws : StreamLaws Reference.env Reference.objfmt where
  tag hrecord :=
    ⟨(Reference.decodeBEEFRecord_some hrecord).1, (Reference.decodeBEEFRecord_some hrecord).2.1⟩
  envelope hrecord := (Reference.decodeBEEFRecord_append hrecord).1
  next := by
    intro rec record hrecord maximum hfits rest
    have hdecode := (Reference.decodeBEEFRecord_append hrecord).2 rest
    simp only [Reference.objfmt, hdecode, hfits, ↓reduceIte, List.take_left, List.drop_left]

open Reference

/-- The object plane with a bound of six bytes. -/
def boundedPlane : Forwarder :=
  { beefForwarder with beefMaxObject := 6 }

/-- A record whose object is as long as the bound, framed. -/
def framedRecord : Bytes :=
  encodeFields frameVerV9
    ⟨1, sampleID 1, 0, 0, sampleID 2, sampleRecord (sampleObject 1)⟩

theorem beefWire_framedRecord : BEEFWire framedRecord (sampleRecord (sampleObject 1)) := by
  constructor <;> decide

theorem allowed_sampleRecord :
    AllowedRecord Reference.env boundedPlane (source 1) (sampleRecord (sampleObject 1)) :=
  ⟨⟨[[0x74, 0x6D]], sampleObject 1⟩, rfl, by decide⟩

theorem tcpLanes_honour_iff_sample :
    (Carried.record (sampleRecord (sampleObject 1))).Honoured Reference.objfmt boundedPlane
      (source 1) .transaction defaultMaxObjectBytes := by
  have hallowed : (Carried.record (sampleRecord (sampleObject 1))).Allowed Reference.env
      boundedPlane (source 1) := ⟨allowed_sampleRecord, by decide⟩
  exact (tcpLanes_honour_iff Reference.streamLaws (by decide) hallowed _ _).mpr id

/-- The plane takes the object, and the framed loop closes the connection on it. -/
theorem framedRecord_closed :
    (Carried.frame framedRecord (sampleRecord (sampleObject 1))).Allowed Reference.env
        boundedPlane (source 1) ∧
      tcpHandleConn Reference.objfmt boundedPlane (source 1) .transaction 1 framedRecord =
        ([], some .beefBound) := by
  refine ⟨⟨beefWire_framedRecord, by decide, Or.inl allowed_sampleRecord⟩, ?_⟩
  decide

end Sample

end ShardProxy
