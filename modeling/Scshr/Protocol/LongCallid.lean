import Scshr.Protocol.OfferIdentity

/-! A call id of 2³² bytes.  The writer keeps the low 32 bits of sizes and offsets, so the id
reads as an empty string and the object behind it is looked for inside the id. -/
namespace Scshr.Protocol.Offers

open Common Lib Bplist List

variable {front back : List Scalar} {scalar : Scalar}

theorem foldl_addScalar_nodup (scalars objs : List Scalar) (nodup : (objs ++ scalars).Nodup) :
    scalars.foldl addScalar objs = objs ++ scalars := by
  induction scalars generalizing objs with
  | nil => rw [append_nil, foldl_nil]
  | cons scalar scalars ih =>
    have fresh : addScalar objs scalar = objs ++ [scalar] := by
      unfold addScalar
      rw [if_neg]
      intro known
      obtain ⟨obj, mem, same⟩ := any_eq_true.mp known
      have equal := repr_injective (of_decide_eq_true same)
      rw [equal] at mem
      exact (nodup_append.mp nodup).2.2 scalar mem scalar mem_cons_self rfl
    rw [append_cons] at nodup
    rw [foldl_cons, fresh, ih _ nodup, ← append_cons]

variable {dict : FlatDict}

theorem objectPos_succ (found : (objects dict)[ref]? = some object) :
    objectPos dict (ref + 1) = objectPos dict ref + object.length := by
  unfold objectPos
  rw [take_add_one, found, flatten_append, length_append]
  simp only [Option.toList_some, flatten_singleton]
  omega

theorem objectPos_mono (dict : FlatDict) (le : first ≤ last) :
    objectPos dict first ≤ objectPos dict last := by
  have split := take_append_drop first ((objects dict).take last)
  rw [take_take, Nat.min_eq_left le] at split
  unfold objectPos
  rw [← split, flatten_append, length_append]
  omega

theorem refOf_append (new : scalar ∉ front) :
    refOf (front ++ scalar :: back) scalar = front.length + 1 := by
  have passed : front.findIdx (fun obj => decide (obj.repr = scalar.repr)) = front.length := by
    apply findIdx_eq_length.mpr
    intro obj mem
    apply decide_eq_false
    intro same
    rw [repr_injective same] at mem
    exact new mem
  unfold refOf
  rw [findIdx_append, passed, if_neg (Nat.lt_irrefl _), findIdx_cons,
    decide_eq_true rfl]
  show 0 + front.length + 1 = front.length + 1
  rw [Nat.zero_add]

theorem refOf_le_of_mem (mem : scalar ∈ front) : refOf (front ++ back) scalar ≤ front.length := by
  have found := findIdx_lt_length_of_exists (p := fun obj : Scalar =>
    decide (obj.repr = scalar.repr)) ⟨scalar, mem, decide_eq_true rfl⟩
  unfold refOf
  rw [findIdx_append, if_pos found]
  exact found

theorem writeSize_length (token : UInt8) (size : Nat) : (writeSize token size).length ≤ 6 := by
  unfold writeSize
  split_ifs <;> simp only [length_cons, length_nil, putBe_length] <;> decide

theorem writeString_ascii (ascii : ∀ b ∈ text, b < 0x80) :
    writeString text = writeSize 0x50 text.length ++ text := by
  unfold writeString
  rw [if_pos]
  exact all_eq_true.mpr fun b mem => decide_eq_true (ascii b mem)

theorem writeInt_length (x : Int) : (writeInt x).length ≤ 9 := by
  unfold writeInt
  split_ifs <;> simp only [length_cons, putBe_length] <;> decide

def earlyObjects (mode : Nat) (blob : Bytes) : List Scalar :=
  [.str mediaBlobKey, .str modeKey, .str callidKey, .str endpointKey, .data blob, .int mode]

/-- An offer whose call id has a length that is zero in 32 bits, and characters that start no
object. -/
structure LongOffer (mode : Nat) (blob callid : Bytes) : Prop where
  mode_lt : mode < 2 ^ 63
  blob_head : blob.head? = some 0x78
  blob_length : blob.length ≤ 2 ^ 20
  callid_length : callid.length = 2 ^ 32
  zeros : ∀ b ∈ callid, b = 0x30

variable {mode : Nat} {blob callid : Bytes}

theorem LongOffer.ascii (long : LongOffer mode blob callid) : ∀ b ∈ callid, b < 0x80 := by
  intro b mem
  rw [long.zeros b mem]
  decide

theorem key_short : ∀ key ∈ [mediaBlobKey, modeKey, callidKey, endpointKey], key.length ≤ 40 := by
  decide

theorem scalars_nodup (long : LongOffer mode blob callid) :
    (earlyObjects mode blob ++ [Scalar.str callid, .data remoteEndpointInfo]).Nodup := by
  have keys : [mediaBlobKey, modeKey, callidKey, endpointKey].Nodup := by
    refine List.Pairwise.imp ?_ offerKeys_ascending
    intro first second below same
    rw [same] at below
    exact List.lt_irrefl second below
  have other : ∀ key ∈ [mediaBlobKey, modeKey, callidKey, endpointKey], key ≠ callid := by
    intro key mem same
    have short := key_short key mem
    rw [same, long.callid_length] at short
    exact absurd short (by decide)
  have endpoint : blob ≠ remoteEndpointInfo := by
    intro same
    have head := long.blob_head
    rw [same] at head
    exact absurd head (by decide)
  simp only [nodup_cons, mem_cons, not_mem_nil, or_false, not_or] at keys
  simp only [forall_mem_cons] at other
  simp [earlyObjects, keys, other, endpoint]

theorem flatten_long (long : LongOffer mode blob callid) :
    flatten (offerDict mode blob callid) =
      earlyObjects mode blob ++ [.str callid, .data remoteEndpointInfo] :=
  foldl_addScalar_nodup _ [] (scalars_nodup long)

theorem refOf_callid (long : LongOffer mode blob callid) :
    refOf (flatten (offerDict mode blob callid)) (.str callid) = 7 := by
  have nodup := scalars_nodup long
  rw [flatten_long long]
  exact refOf_append fun mem => (nodup_append.mp nodup).2.2 _ mem _ mem_cons_self rfl

theorem refOf_endpoint (long : LongOffer mode blob callid) :
    refOf (flatten (offerDict mode blob callid)) (.data remoteEndpointInfo) = 8 := by
  have nodup := scalars_nodup long
  rw [append_cons] at nodup
  rw [flatten_long long, append_cons]
  exact refOf_append fun mem => (nodup_append.mp nodup).2.2 _ mem _ mem_cons_self rfl

theorem objects_long (long : LongOffer mode blob callid) :
    objects (offerDict mode blob callid) =
      writeDict 1 (flatten (offerDict mode blob callid)) (offerDict mode blob callid) ::
        ((earlyObjects mode blob).map writeScalar ++
          [writeScalar (.str callid), writeScalar (.data remoteEndpointInfo)]) := by
  unfold objects
  dsimp only
  rw [flatten_long long, map_append]
  rfl

theorem writeDict_length (mode : Nat) (blob callid : Bytes) (objs : List Scalar) :
    (writeDict 1 objs (offerDict mode blob callid)).length ≤ 14 := by
  have size := writeSize_length 0xD0 (offerDict mode blob callid).entries.length
  unfold writeDict
  rw [length_append, length_append, length_flatMap, length_flatMap]
  simp only [putBe_length, offerDict, map_cons, map_nil, sum_cons, sum_nil] at *
  omega

theorem callid_pos (long : LongOffer mode blob callid) :
    objectPos (offerDict mode blob callid) 7 < 2 ^ 31 := by
  have root := writeDict_length mode blob callid (flatten (offerDict mode blob callid))
  have size := writeSize_length 0x40 blob.length
  have short := long.blob_length
  have number := writeInt_length mode
  have keys : ∀ key ∈ [mediaBlobKey, modeKey, callidKey, endpointKey],
      (writeString key).length ≤ 46 := by
    intro key mem
    have bound := writeSize_length 0x50 key.length
    have small := key_short key mem
    rw [writeString_ascii (key_ascii key mem), length_append]
    omega
  unfold objectPos
  rw [objects_long long]
  simp only [earlyObjects, map_cons, map_nil, cons_append, nil_append,
    take_succ_cons, take_zero, flatten_cons, flatten_nil, length_append,
    writeScalar, length_nil, forall_mem_cons] at keys ⊢
  omega

theorem callid_written (long : LongOffer mode blob callid) :
    writeScalar (.str callid) = [0x5f, 0x12, 0, 0, 0, 0] ++ callid := by
  show writeString callid = _
  rw [writeString_ascii long.ascii, long.callid_length]
  rfl

theorem endpoint_pos (long : LongOffer mode blob callid) :
    objectPos (offerDict mode blob callid) 8 =
      objectPos (offerDict mode blob callid) 7 + 6 + 2 ^ 32 := by
  have found : (objects (offerDict mode blob callid))[7]? = some (writeScalar (.str callid)) := by
    rw [objects_long long]
    rfl
  rw [objectPos_succ found, callid_written long, length_append, long.callid_length,
    ← Nat.add_assoc, show [0x5f, 0x12, 0, 0, 0, (0 : UInt8)].length = 6 from rfl]

theorem dump_short (long : LongOffer mode blob callid) :
    2 ^ 32 ≤ tableOff (offerDict mode blob callid) ∧
      (dump (offerDict mode blob callid)).length < 2 ^ 63 := by
  have start := callid_pos long
  have last := endpoint_pos long
  have few : (objects (offerDict mode blob callid)).length ≤ 9 := length_objects_le _
  have found : (objects (offerDict mode blob callid))[8]? =
      some (writeScalar (.data remoteEndpointInfo)) := by
    rw [objects_long long]
    rfl
  have table : tableOff (offerDict mode blob callid) =
      objectPos (offerDict mode blob callid) 9 := by
    unfold tableOff objectPos
    rw [take_of_length_le few]
  have endpoint : (writeScalar (.data remoteEndpointInfo)).length ≤ 100 := by decide
  have width := (widthFor_bounds (tableOff (offerDict mode blob callid))).2
  have fields := Nat.mul_le_mul few width
  have size := length_dump (offerDict mode blob callid)
  rw [objectPos_succ found] at table
  omega

theorem readObject_callid (long : LongOffer mode blob callid) (depth : Nat) :
    readObject sizeT (dumpReader (offerDict mode blob callid)) (depth + 1) 7 true =
      .ok (some (.str [], true)) := by
  have start := callid_pos long
  have size := (dump_short long).2
  have found : (objects (offerDict mode blob callid))[7]? = some (writeScalar (.str callid)) := by
    rw [objects_long long]
    rfl
  have placed := (placed_objects (offerDict mode blob callid)).flatten _ _ _ found
  rw [show writeScalar (.str callid) = _ from writeString_ascii long.ascii] at placed
  have offset := offsets_fitting (List.getElem?_eq_some_iff.mp found).1
    (Nat.lt_of_lt_of_le start (by decide))
  rw [readObject_ascii size depth offset placed, long.callid_length, Nat.mod_self, take_zero]

/-- The endpoint's offset does not fit: what is read is the call id's first character. -/
theorem readObject_endpoint (long : LongOffer mode blob callid) (depth : Nat) :
    readObject sizeT (dumpReader (offerDict mode blob callid)) (depth + 1) 8 true = .ok none := by
  have start := callid_pos long
  have table := (dump_short long).1
  have found : (objects (offerDict mode blob callid))[7]? = some (writeScalar (.str callid)) := by
    rw [objects_long long]
    rfl
  have inside : 8 < (objects (offerDict mode blob callid)).length := by
    rw [objects_long long]
    show 8 < 9
    decide
  have width : widthFor (tableOff (offerDict mode blob callid)) = 4 := by
    unfold widthFor
    rw [if_neg (by omega), if_neg (by omega)]
  have wrapped : objectPos (offerDict mode blob callid) 8 % 256 ^ 4 =
      objectPos (offerDict mode blob callid) 7 + 6 := by
    rw [endpoint_pos long]
    omega
  have offset := offsets_objectPos inside
  rw [width, wrapped] at offset
  have placed := (placed_objects (offerDict mode blob callid)).flatten _ _ _ found
  rw [callid_written long] at placed
  obtain ⟨first, rest, rfl⟩ : ∃ first rest, callid = first :: rest := by
    apply exists_cons_of_length_pos
    rw [long.callid_length]
    decide
  have zero := long.zeros first mem_cons_self
  rw [readObject_marker depth offset (byteAt_placed placed.right), zero]
  rfl

theorem entries_none (read : ObjectReader) (pairs : List (Nat × Nat))
    (done : List (Bytes × Value))
    (keys : ∀ pair ∈ pairs, ∃ key, read pair.1 true = .ok (some (.str key, true)))
    (values : ∀ pair ∈ pairs, read pair.2 true = .ok none ∨
      ∃ value, read pair.2 true = .ok (some (value, true)))
    (missing : ∃ pair ∈ pairs, read pair.2 true = .ok none) :
    entries read (pairs.map Prod.fst) (pairs.map Prod.snd) true done = .ok none := by
  induction pairs generalizing done with
  | nil =>
    obtain ⟨pair, mem, -⟩ := missing
    exact absurd mem not_mem_nil
  | cons pair pairs ih =>
    obtain ⟨key, first⟩ := keys pair mem_cons_self
    rw [map_cons, map_cons, entries, first]
    dsimp only [bind, Except.bind, Value.str?]
    rcases values pair mem_cons_self with none | ⟨value, some⟩
    · rw [none]
    · rw [some]
      dsimp only
      apply ih
      · exact fun later mem => keys later (mem_cons_of_mem pair mem)
      · exact fun later mem => values later (mem_cons_of_mem pair mem)
      · obtain ⟨last, mem, none⟩ := missing
        rcases mem_cons.mp mem with rfl | later
        · rw [none] at some
          cases some
        · exact ⟨last, later, none⟩

theorem readObject_early (long : LongOffer mode blob callid) (depth : Nat)
    (mem : scalar ∈ earlyObjects mode blob) (plain : scalar.Plain) :
    readObject sizeT (dumpReader (offerDict mode blob callid)) (depth + 1)
      (refOf (flatten (offerDict mode blob callid)) scalar) true =
        .ok (some (scalar.value, true)) := by
  have size := (dump_short long).2
  have start := callid_pos long
  have table := flatten_long long
  have inTable : scalar ∈ flatten (offerDict mode blob callid) := by
    rw [table]
    exact mem_append_left _ mem
  have before : refOf (flatten (offerDict mode blob callid)) scalar + 1 ≤ 7 := by
    rw [table]
    exact Nat.succ_le_succ (refOf_le_of_mem mem)
  have below := objectPos_mono (offerDict mode blob callid) before
  rw [objectPos_succ (objects_refOf inTable)] at below
  exact readObject_refOf size depth inTable plain (by omega)

theorem load_longOffer (long : LongOffer mode blob callid) :
    load (dump (offerDict mode blob callid)) = .ok none := by
  have few := (length_objects_le (offerDict mode blob callid)).trans (show 9 ≤ 100000 by decide)
  have plain := offerDict_plain long.mode_lt blob long.ascii
  have callidRead := readObject_callid long 30
  have endpointRead := readObject_endpoint long 30
  rw [← refOf_callid long] at callidRead
  rw [← refOf_endpoint long] at endpointRead
  have keys : ∀ entry ∈ (offerDict mode blob callid).entries,
      .str entry.1 ∈ earlyObjects mode blob := by
    simp [offerDict, earlyObjects]
  have values : ∀ entry ∈ (offerDict mode blob callid).entries,
      entry.2 ∈ earlyObjects mode blob ∨ entry.2 = .str callid ∨
        entry.2 = .data remoteEndpointInfo := by
    simp [offerDict, earlyObjects]
  have last : (endpointKey, .data remoteEndpointInfo) ∈ (offerDict mode blob callid).entries := by
    simp [offerDict]
  have stops := entries_none (readObject sizeT (dumpReader (offerDict mode blob callid)) 31)
    ((offerDict mode blob callid).entries.map fun entry =>
      (refOf (flatten (offerDict mode blob callid)) (.str entry.1),
        refOf (flatten (offerDict mode blob callid)) entry.2)) []
  rw [map_map, map_map] at stops
  rw [load_eq_entries few (dump_short long).2 (show 4 < 2 ^ 32 by decide)]
  refine congrArg (Functor.map _) (stops ?_ ?_ ?_)
  · intro pair mem
    obtain ⟨entry, inside, rfl⟩ := mem_map.mp mem
    exact ⟨_, readObject_early long 30 (keys entry inside) (plain entry inside).1⟩
  · intro pair mem
    obtain ⟨entry, inside, rfl⟩ := mem_map.mp mem
    rcases values entry inside with early | callidValue | endpointValue
    · exact .inr ⟨_, readObject_early long 30 early (plain entry inside).2⟩
    · dsimp only
      rw [callidValue]
      exact .inr ⟨_, callidRead⟩
    · dsimp only
      rw [endpointValue]
      exact .inl endpointRead
  · exact ⟨_, mem_map.mpr ⟨_, last, rfl⟩, endpointRead⟩

theorem offerWith_longCallid (z : Zlib) (isVideo : Bool) (sessionId : UInt32)
    (moreShort : more.length ≤ 1040) (restShort : rest.length ≤ 400)
    (length_eq : callid.length = 2 ^ 32) (zeros : ∀ b ∈ callid, b = 0x30) :
    ¬ ExtractOfferSsrc z (offerWith z isVideo sessionId more rest callid) isVideo
      (some sessionId) := by
  have size := blobWith_length (ssrcField isVideo) sessionId moreShort restShort
  have bound := z.compress_length (blobWith (ssrcField isVideo) sessionId more rest)
  have long : LongOffer (if isVideo then 7 else 8)
      (z.compress (blobWith (ssrcField isVideo) sessionId more rest)) callid :=
    { mode_lt := by cases isVideo <;> decide
      blob_head := z.compress_head _
      blob_length := by omega
      callid_length := length_eq
      zeros := zeros }
  rintro ⟨loaded, read, extracted⟩
  unfold offerWith at read
  rw [load_longOffer long] at read
  cases read
  cases extracted

/-- A call id of 2³² zeros: its length is written as zero and the offset behind it is reduced,
so that the offer is not even loaded. -/
theorem long_callid_breaks_offer :
    ∃ o : OfferOptions, o.callidVideo = List.replicate (2 ^ 32) 0x30 ∧ o.callidAudio = [] ∧
      o.sessionIdVideo = 1 ∧ o.sessionIdAudio = 2 ∧
      ∀ z video audio, ∃ videoOffer audioOffer,
        createOffers z video audio o = .ok (videoOffer, audioOffer) ∧
          ¬ ExtractOfferSsrc z videoOffer true (some 1) := by
  -- the string is kept as a variable, so that nothing unfolds it
  obtain ⟨callid, callid_eq⟩ : ∃ callid, callid = List.replicate (2 ^ 32) (0x30 : UInt8) :=
    ⟨_, rfl⟩
  have length_eq : callid.length = 2 ^ 32 := by
    rw [callid_eq, length_replicate]
  have zeros : ∀ b ∈ callid, b = 0x30 := by
    rw [callid_eq]
    exact fun b mem => eq_of_mem_replicate mem
  refine ⟨{ sessionIdVideo := 1, sessionIdAudio := 2, callidVideo := callid }, callid_eq, rfl, rfl,
    rfl, ?_⟩
  intro z video audio
  have named : video.callidFor callid = callid := by
    unfold Fresh.callidFor
    rw [callid_eq, isEmpty_replicate]
    exact if_neg (by decide)
  refine ⟨_, _, createOffers_eq z video audio _ (show (1 : UInt32) ≠ 0 by decide)
    (show (2 : UInt32) ≠ 0 by decide), ?_⟩
  dsimp only
  rw [named]
  exact offerWith_longCallid z true 1 (videoRest_length _) (blobRest_length _) length_eq zeros

end Scshr.Protocol.Offers
