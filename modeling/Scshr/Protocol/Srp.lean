import Mathlib.Data.Nat.Size
import Mathlib.Data.ZMod.Basic
import Scshr.Common.Bytes

/-! The client side of SRP (`derive_x` and `solve_srp` of `protocol/auth.cpp`) over the bignum
helpers of `crypto/crypto.cpp`.  The hash and the key derivation are parameters, and the bignum
operations are the modular functions they are named after; a helper that throws is `none`. -/
namespace Scshr.Protocol

open Common Option

def srpModulusLen : Nat := 512

theorem srpModulusLen_ne_zero : srpModulusLen ≠ 0 := by decide

def srpPbkdf2DkLen : Nat := 128

/-- What libcrypto computes; the key derivation fails on parameters the library refuses. -/
structure SrpHashes where
  sha512 : Bytes → Vector UInt8 64
  pbkdf2HmacSha512 : (password salt : Bytes) → (iterations : UInt64) → (dkLen : Nat) →
    Option Bytes

variable {value outLen N : Nat} {bytes x salt password : Bytes} {hashes : SrpHashes}
  {iterations : UInt64}

/-! ## Bignums -/

/-- `bn_out`: a length of zero asks for as many bytes as the value has. -/
def bnOut (value outLen : Nat) : Option Bytes :=
  if outLen = 0 then some (putBe ((value.size + 7) / 8) value)
  else if value < 256 ^ outLen then some (putBe outLen value)
  else none

def bnModexp (base exp mod : Bytes) (outLen : Nat) : Option Bytes :=
  bnOut (beNat base ^ beNat exp % beNat mod) outLen

def bnMod (a mod : Bytes) (outLen : Nat) : Option Bytes :=
  bnOut (beNat a % beNat mod) outLen

/-- The base of the premaster secret; `BN_mod_sub` gives the nonnegative residue. -/
def premasterBase (B k g x N : Nat) : Nat :=
  (((B : Int) - ((g ^ x % N) * k % N : Nat)) % N).toNat

def bnSrpPremaster (B k g x a u N : Bytes) (outLen : Nat) : Option Bytes :=
  let t := premasterBase (beNat B) (beNat k) (beNat g) (beNat x) (beNat N)
  let e := beNat u * beNat x + beNat a
  bnOut (t ^ e % beNat N) outLen

theorem pow_bytes (count : Nat) : 256 ^ count = 2 ^ (8 * count) := (Nat.pow_mul 2 8 count).symm

theorem beNat_of_bnOut (out : bnOut value outLen = some bytes) : beNat bytes = value := by
  unfold bnOut at out
  split at out
  next =>
    obtain rfl := Option.some.inj out
    rw [beNat_putBe]
    apply Nat.mod_eq_of_lt
    calc value < 2 ^ value.size := Nat.lt_size_self value
      _ ≤ 2 ^ (8 * ((value.size + 7) / 8)) := Nat.pow_le_pow_right (by decide) (by omega)
      _ = 256 ^ ((value.size + 7) / 8) := (pow_bytes _).symm
  next =>
    split at out
    next fits =>
      obtain rfl := Option.some.inj out
      rw [beNat_putBe, Nat.mod_eq_of_lt fits]
    next => cases out

theorem bnOut_padded (padded : outLen ≠ 0) (out : bnOut value outLen = some bytes) :
    bytes = putBe outLen value := by
  unfold bnOut at out
  rw [if_neg padded] at out
  split at out
  next => exact (Option.some.inj out).symm
  next => cases out

theorem bnOut_minimal (value : Nat) : ∃ bytes, bnOut value 0 = some bytes := ⟨_, if_pos rfl⟩

theorem bnOut_of_lt (padded : outLen ≠ 0) (fits : value < 256 ^ outLen) :
    bnOut value outLen = some (putBe outLen value) := by
  unfold bnOut
  rw [if_neg padded, if_pos fits]

/-! ## The client -/

structure SrpChallenge where
  N : Bytes
  salt : Bytes
  B : Bytes
  g : UInt32
  iterations : UInt64

structure SrpProof where
  A : Bytes
  M1 : Bytes
  K : Bytes
  deriving DecidableEq

/-- The scan that takes one off a number, from its last byte. -/
def decrement : Bytes → Bytes
  | [] => []
  | byte :: rest => if byte > 0 then (byte - 1) :: rest else 0xFF :: decrement rest

/-- The scan that adds one with carry, from the last byte; a carry out of the first byte puts
a new one in front. -/
def increment : Bytes → Bytes
  | [] => [1]
  | byte :: rest => if byte = 0xFF then 0 :: increment rest else (byte + 1) :: rest

/-- `a = urandom(64) % (N - 1) + 1`. -/
def ephemeral (N rnd : Bytes) : Option Bytes :=
  (bnMod rnd (decrement N.reverse).reverse 0).map fun a => (increment a.reverse).reverse

section Client

variable (hashes : SrpHashes)

def deriveX (salt : Bytes) (iterations : UInt64) (password : Bytes) : Option Bytes :=
  (hashes.pbkdf2HmacSha512 password salt iterations srpPbkdf2DkLen).map fun dk =>
    let inner := hashes.sha512 (UInt8.ofNat ':'.toNat :: dk)
    (hashes.sha512 (salt ++ inner.toList)).toList

/-- Only the low byte of the generator is used. -/
def SrpChallenge.gb (ch : SrpChallenge) : Bytes := [UInt8.ofNat ch.g.toNat]

def SrpChallenge.gPadded (ch : SrpChallenge) : Bytes :=
  List.replicate (srpModulusLen - 1) 0 ++ ch.gb

def SrpChallenge.k (ch : SrpChallenge) : Bytes := (hashes.sha512 (ch.N ++ ch.gPadded)).toList

def SrpChallenge.u (ch : SrpChallenge) (A : Bytes) : Bytes := (hashes.sha512 (A ++ ch.B)).toList

def SrpChallenge.m1 (ch : SrpChallenge) (A K : Bytes) : Bytes :=
  let hN := hashes.sha512 ch.N
  let hg := hashes.sha512 ch.gPadded
  let hI := hashes.sha512 []
  (hashes.sha512 ((Vector.zipWith (· ^^^ ·) hN hg).toList ++ hI.toList ++ ch.salt ++ A ++ ch.B ++
    K)).toList

def clientSecret (ch : SrpChallenge) (password a : Bytes) : Option (Bytes × Bytes) :=
  (bnModexp ch.gb a ch.N srpModulusLen).bind fun A =>
    (deriveX hashes ch.salt ch.iterations password).bind fun dx =>
      (bnMod dx ch.N 0).bind fun x =>
        (bnSrpPremaster ch.B (ch.k hashes) ch.gb x a (ch.u hashes A) ch.N srpModulusLen).map
          fun S => (A, S)

/-- The client's secret: the caller's, or one from the 64 random bytes. -/
def srpSecret (ch : SrpChallenge) (aOverride rnd : Bytes) : Option Bytes :=
  if aOverride ≠ [] then some aOverride else ephemeral ch.N rnd

def solveSrp (ch : SrpChallenge) (password aOverride rnd : Bytes) : Option SrpProof :=
  (srpSecret ch aOverride rnd).bind fun a =>
    (clientSecret hashes ch password a).map fun (A, S) =>
      let K := (hashes.sha512 S).toList
      ⟨A, ch.m1 hashes A K, K⟩

end Client

/-! ## The server -/

def verifier (N g x : Nat) : Nat := g ^ x % N

def serverPublic (N g k v b : Nat) : Nat := (k * v + g ^ b) % N

def serverPremaster (N A v u b : Nat) : Nat := (A * v ^ u) ^ b % N

def serverKey (hashes : SrpHashes) (N A v u b : Nat) : Bytes :=
  (hashes.sha512 (putBe srpModulusLen (serverPremaster N A v u b))).toList

/-! ## Agreement -/

theorem premasterBase_cast (positive : 0 < N) (g k x b : Nat) :
    (premasterBase (serverPublic N g k (verifier N g x) b) k g x N : ZMod N) =
      (g : ZMod N) ^ b := by
  have nonzero : (N : Int) ≠ 0 := by omega
  have residue : ((premasterBase (serverPublic N g k (verifier N g x) b) k g x N : Nat) : Int) =
      ((serverPublic N g k (verifier N g x) b : Int) - ((g ^ x % N) * k % N : Nat)) % N :=
    Int.toNat_of_nonneg (Int.emod_nonneg _ nonzero)
  have cast := congrArg (Int.cast : Int → ZMod N) residue
  rw [Int.cast_natCast, ZMod.intCast_mod, Int.cast_sub, Int.cast_natCast, Int.cast_natCast] at cast
  rw [cast, serverPublic, verifier, ZMod.natCast_mod, ZMod.natCast_mod]
  push_cast
  rw [ZMod.natCast_mod]
  push_cast
  ring

theorem premaster_agrees (positive : 0 < N) (g k x u a b : Nat) :
    premasterBase (serverPublic N g k (verifier N g x) b) k g x N ^ (u * x + a) % N =
      serverPremaster N (g ^ a % N) (verifier N g x) u b := by
  have same : ((premasterBase (serverPublic N g k (verifier N g x) b) k g x N ^ (u * x + a) : Nat) :
      ZMod N) = (((g ^ a % N) * verifier N g x ^ u) ^ b : Nat) := by
    push_cast
    rw [premasterBase_cast positive, verifier, ZMod.natCast_mod, ZMod.natCast_mod]
    push_cast
    ring
  exact (ZMod.natCast_eq_natCast_iff' _ _ N).mp same

theorem length_deriveX (derived : deriveX hashes salt iterations password = some x) :
    x.length = 64 := by
  obtain ⟨dk, -, rfl⟩ := map_eq_some_iff.mp derived
  exact Vector.length_toList

theorem beNat_reduced {N reduced : Bytes}
    (derived : deriveX hashes salt iterations password = some x) (modulus : 2 ^ 512 < beNat N)
    (mod : bnMod x N 0 = some reduced) : beNat reduced = beNat x := by
  have short := beNat_lt x
  rw [length_deriveX derived, pow_bytes, (by decide : 8 * 64 = 512)] at short
  unfold bnMod at mod
  rw [beNat_of_bnOut mod, Nat.mod_eq_of_lt (short.trans modulus)]

theorem beNat_gb {ch : SrpChallenge} (generator : ch.g.toNat ≤ 255) : beNat ch.gb = ch.g.toNat := by
  unfold SrpChallenge.gb beNat
  rw [List.foldl_cons, List.foldl_nil, UInt8.toNat_ofNat', Nat.mod_eq_of_lt (by omega)]
  omega

section Agreement

variable {ch : SrpChallenge}

theorem clientSecret_eq_some {a A S : Bytes} (modulus : 2 ^ 512 < beNat ch.N)
    (generator : ch.g.toNat ≤ 255)
    (derived : deriveX hashes ch.salt ch.iterations password = some x)
    (client : clientSecret hashes ch password a = some (A, S)) :
    beNat A = ch.g.toNat ^ beNat a % beNat ch.N ∧
      S = putBe srpModulusLen
        (premasterBase (beNat ch.B) (beNat (ch.k hashes)) ch.g.toNat (beNat x) (beNat ch.N) ^
          (beNat (ch.u hashes A) * beNat x + beNat a) % beNat ch.N) ∧
      beNat S =
        premasterBase (beNat ch.B) (beNat (ch.k hashes)) ch.g.toNat (beNat x) (beNat ch.N) ^
          (beNat (ch.u hashes A) * beNat x + beNat a) % beNat ch.N := by
  unfold clientSecret at client
  simp only [bind_eq_some_iff, map_eq_some_iff, Prod.mk.injEq] at client
  obtain ⟨key, power, hashed, again, reduced, mod, premaster, secret, rfl, rfl⟩ := client
  obtain rfl : x = hashed := Option.some.inj (derived.symm.trans again)
  have value := beNat_reduced derived modulus mod
  unfold bnModexp at power
  unfold bnSrpPremaster at secret
  have shown := beNat_of_bnOut power
  have padded := bnOut_padded srpModulusLen_ne_zero secret
  have number := beNat_of_bnOut secret
  rw [beNat_gb generator] at shown
  rw [beNat_gb generator, value] at padded number
  exact ⟨shown, padded, number⟩

theorem exists_srpSecret (ch : SrpChallenge) (aOverride rnd : Bytes) :
    ∃ a, srpSecret ch aOverride rnd = some a := by
  unfold srpSecret
  split
  · exact ⟨_, rfl⟩
  · obtain ⟨a, out⟩ := bnOut_minimal (beNat rnd % beNat (decrement ch.N.reverse).reverse)
    rw [ephemeral, bnMod, out, map_some]
    exact ⟨_, rfl⟩

theorem clientSecret_isSome (a : Bytes) (modulus : 2 ^ 512 < beNat ch.N)
    (fits : beNat ch.N ≤ 256 ^ srpModulusLen)
    (derived : deriveX hashes ch.salt ch.iterations password = some x) :
    ∃ pair, clientSecret hashes ch password a = some pair := by
  have below : ∀ value, value % beNat ch.N < 256 ^ srpModulusLen := fun value =>
    (Nat.mod_lt value (Nat.zero_lt_of_lt modulus)).trans_le fits
  obtain ⟨reduced, mod⟩ : ∃ reduced, bnMod x ch.N 0 = some reduced := bnOut_minimal _
  rw [clientSecret, bnModexp, bnOut_of_lt srpModulusLen_ne_zero (below _), bind_some,
    derived, bind_some, mod, bind_some, bnSrpPremaster]
  rw [bnOut_of_lt srpModulusLen_ne_zero (below _), map_some]
  exact ⟨_, rfl⟩

/-- For every password and every pair of secrets, the client's premaster secret is the
server's, and so are the session key and the proof.  The client returns a proof whenever the
modulus fits the 512 bytes it is sent in. -/
theorem srp_agreement (hashes : SrpHashes) (ch : SrpChallenge) (password aOverride rnd : Bytes)
    (b : Nat) {x : Bytes} (modulus : 2 ^ 512 < beNat ch.N) (generator : ch.g.toNat ≤ 255)
    (derived : deriveX hashes ch.salt ch.iterations password = some x)
    (sent : beNat ch.B = serverPublic (beNat ch.N) ch.g.toNat (beNat (ch.k hashes))
      (verifier (beNat ch.N) ch.g.toNat (beNat x)) b) :
    (beNat ch.N ≤ 256 ^ srpModulusLen →
      ∃ proof, solveSrp hashes ch password aOverride rnd = some proof) ∧
    ∀ proof, solveSrp hashes ch password aOverride rnd = some proof →
      let v := verifier (beNat ch.N) ch.g.toNat (beNat x)
      let u := beNat (ch.u hashes proof.A)
      let K := serverKey hashes (beNat ch.N) (beNat proof.A) v u b
      ∃ a S, srpSecret ch aOverride rnd = some a ∧
        clientSecret hashes ch password a = some (proof.A, S) ∧
        beNat proof.A = ch.g.toNat ^ beNat a % beNat ch.N ∧
        beNat S = serverPremaster (beNat ch.N) (beNat proof.A) v u b ∧
        proof.K = K ∧ proof.M1 = ch.m1 hashes proof.A K := by
  have positive : 0 < beNat ch.N := Nat.zero_lt_of_lt modulus
  constructor
  · intro fits
    obtain ⟨a, secret⟩ := exists_srpSecret ch aOverride rnd
    obtain ⟨pair, client⟩ := clientSecret_isSome a modulus fits derived
    rw [solveSrp, secret, bind_some, client, map_some]
    exact ⟨_, rfl⟩
  · intro proof solved
    unfold solveSrp at solved
    simp only [bind_eq_some_iff, map_eq_some_iff] at solved
    obtain ⟨a, secret, ⟨A, S⟩, client, rfl⟩ := solved
    obtain ⟨shown, padded, number⟩ := clientSecret_eq_some modulus generator derived client
    rw [sent, premaster_agrees positive, ← shown] at padded number
    have key : (hashes.sha512 S).toList = serverKey hashes (beNat ch.N) (beNat A)
        (verifier (beNat ch.N) ch.g.toNat (beNat x)) (beNat (ch.u hashes A)) b := by
      rw [padded]
      rfl
    exact ⟨a, S, secret, client, shown, number, key, congrArg (ch.m1 hashes A) key⟩

end Agreement

def clearHashes : SrpHashes where
  sha512 bytes := Vector.ofFn fun i => bytes.getD i.val 0
  pbkdf2HmacSha512 password salt _ _ := some (password ++ salt)

def sampleModulus : Nat := 2 ^ 512 + 1

def sampleChallenge (B : Bytes) : SrpChallenge where
  N := putBe srpModulusLen sampleModulus
  salt := [1, 2]
  B := B
  g := 5
  iterations := 1

/-- Secret 3 of the client and secret 9 of the server. -/
theorem srp_agreement_sample :
    let N := beNat (sampleChallenge []).N
    let k := beNat ((sampleChallenge []).k clearHashes)
    ∃ x B proof u, deriveX clearHashes [1, 2] 1 [7] = some x ∧
      beNat B = serverPublic N 5 k (verifier N 5 (beNat x)) 9 ∧
      solveSrp clearHashes (sampleChallenge B) [7] [3] [] = some proof ∧
      proof.K = serverKey clearHashes N (beNat proof.A) (verifier N 5 (beNat x)) u 9 := by
  intro N k
  have value : N = sampleModulus := by
    change beNat (putBe srpModulusLen sampleModulus) = _
    rw [beNat_putBe, Nat.mod_eq_of_lt (by decide +kernel)]
  have fits : N ≤ 256 ^ srpModulusLen := by
    rw [value]
    decide +kernel
  have modulus : 2 ^ 512 < N := by
    rw [value]
    decide +kernel
  obtain ⟨x, derived⟩ : ∃ x, deriveX clearHashes [1, 2] 1 [7] = some x := ⟨_, rfl⟩
  obtain ⟨B, sent⟩ : ∃ B, beNat B = serverPublic N 5 k (verifier N 5 (beNat x)) 9 := by
    refine ⟨putBe srpModulusLen (serverPublic N 5 k (verifier N 5 (beNat x)) 9), ?_⟩
    rw [beNat_putBe]
    exact Nat.mod_eq_of_lt ((Nat.mod_lt _ (Nat.zero_lt_of_lt modulus)).trans_le fits)
  obtain ⟨returns, agrees⟩ := srp_agreement clearHashes (sampleChallenge B) [7] [3] [] 9
    modulus (by decide : (5 : UInt32).toNat ≤ 255) derived sent
  obtain ⟨proof, solved⟩ := returns fits
  obtain ⟨a, S, -, -, -, -, key, -⟩ := agrees proof solved
  exact ⟨x, B, proof, _, derived, sent, solved, key⟩

end Scshr.Protocol
