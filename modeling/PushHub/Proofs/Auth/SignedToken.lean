import PushHub.Auth.SignedToken
import PushHub.Proofs.Identity
import PushHub.Proofs.Json.RoundTrip
import PushHub.Proofs.Text.Base64Url
import Mathlib.Data.List.TakeWhile

/-! What a key signs it accepts for as long as it lasts, and it accepts nothing that was not made
with its secret. -/
namespace PushHub.Auth

open Json (Outline)
open Json.Members (row_of_check)
open Text

namespace SignedToken

/-! ## The parts of a token -/

theorem splitLast_append (front : List Char) {tail : List Char} (htail : '.' ∉ tail) :
    splitLast (front ++ '.' :: tail) = some (front, tail) := by
  have hpos : ∀ c ∈ tail.reverse, decide (c ≠ '.') = true := fun c hc =>
    decide_eq_true fun hdot => htail (hdot ▸ List.mem_reverse.mp hc)
  have hbehind : ((front ++ '.' :: tail).reverse.takeWhile (· ≠ '.')).reverse = tail := by
    rw [List.reverse_append, List.reverse_cons, List.append_assoc,
      List.takeWhile_append_of_pos hpos, List.singleton_append,
      List.takeWhile_cons_of_neg (by decide), List.append_nil, List.reverse_reverse]
  have hlength : (front ++ '.' :: tail).length = front.length + 1 + tail.length := by
    rw [List.length_append, List.length_cons]
    omega
  have hbefore : front.length + 1 + tail.length - tail.length - 1 = front.length := by omega
  unfold splitLast
  dsimp only
  rw [hbehind, hlength, if_pos (by omega), hbefore, List.take_left]

theorem splitLast_eq_none {cs : List Char} (h : '.' ∉ cs) : splitLast cs = none := by
  have hpos : ∀ c ∈ cs.reverse, decide (c ≠ '.') = true := fun c hc =>
    decide_eq_true fun hdot => h (hdot ▸ List.mem_reverse.mp hc)
  have hwhole : cs.reverse.takeWhile (· ≠ '.') = cs.reverse := List.takeWhile_eq_self_iff.mpr hpos
  unfold splitLast
  dsimp only
  rw [hwhole, List.reverse_reverse, if_neg (Nat.lt_irrefl _)]

theorem splitLast_eq_some {cs front tail : List Char} (h : splitLast cs = some (front, tail)) :
    cs = front ++ '.' :: tail ∧ '.' ∉ tail := by
  by_cases hdot : '.' ∈ cs
  · obtain ⟨behind, before, heq, hbehind⟩ := List.eq_append_cons_of_mem (List.mem_reverse.mpr hdot)
    have hcs : cs = before.reverse ++ '.' :: behind.reverse := by
      rw [← List.reverse_reverse cs, heq]
      simp
    have hplain : '.' ∉ behind.reverse := fun hmem => hbehind (List.mem_reverse.mp hmem)
    rw [hcs, splitLast_append _ hplain] at h
    cases h
    exact ⟨hcs, hplain⟩
  · rw [splitLast_eq_none hdot] at h
    cases h

theorem dot_not_mem_of_decode {cs : List Char} {bytes : List UInt8}
    (h : Base64Url.decode cs = some bytes) : '.' ∉ cs := by
  rw [Base64Url.decode_eq_some.mp h]
  exact Base64Url.dot_not_mem_encode bytes

theorem decodeText_encodeText (s : String) : decodeText (encodeText s) = some s := by
  unfold decodeText encodeText
  rw [Base64Url.decode_eq_some.mpr rfl, Option.bind_some, Text.ofUtf8?_utf8]

/-! ## Claims -/

theorem asInt64_ofInt64 (n : Int64) :
    Outline.asInt64 (.number (some (.integer (.ofInt64 n)))) = .ok n := by
  have hbounds : -0x8000000000000000 ≤ n.toInt ∧ n.toInt ≤ 0x7fffffffffffffff :=
    ⟨n.le_toInt, Int.le_of_lt_add_one n.toInt_lt⟩
  unfold Outline.asInt64 Outline.asInteger
  dsimp only [WireInt.ofInt64]
  rw [if_pos hbounds]
  show Except.ok (Int64.ofInt n.toInt) = _
  rw [Int64.ofInt_toInt]

theorem readAlgorithm_header : Json.decodeValue readAlgorithm header = .ok "HS256" := by
  rfl

theorem readClaims_toJson (c : Claims) : Json.decodeValue readClaims c.toJson = .ok c := by
  have hiat := asInt64_ofInt64 c.issuedAt
  have hexp := asInt64_ofInt64 c.expiry
  have hrow : (Outline.ofJson c.toJson).record "struct Claims"
      [.of "sub" Outline.asText, .of "iat" Outline.asInt64, .of "exp" Outline.asInt64] =
        .ok [("sub", .text (some c.subject)),
          ("iat", .number (some (.integer (.ofInt64 c.issuedAt)))),
          ("exp", .number (some (.integer (.ofInt64 c.expiry))))] := by
    simp only [Claims.toJson, Outline.ofJson, Outline.membersOfJson, Outline.record]
    refine (row_of_check rfl rfl rfl _).trans ?_
    refine (row_of_check rfl rfl (congrArg (Except.map _) hiat) _).trans ?_
    exact row_of_check rfl rfl (congrArg (Except.map _) hexp) _
  unfold Json.decodeValue readClaims
  rw [hrow]
  show (Outline.asInt64 _ >>= fun issuedAt => Outline.asInt64 _ >>= fun expiry =>
    Except.ok (Claims.mk c.subject issuedAt expiry)) = _
  rw [hiat]
  show (Outline.asInt64 _ >>= fun expiry =>
    Except.ok (Claims.mk c.subject c.issuedAt expiry)) = _
  rw [hexp]
  rfl

theorem readAudience_toJson (c : Claims) : Json.decodeValue readAudience c.toJson = .ok false := by
  rfl

/-! ## Opening -/

theorem open?_sign (secret : List UInt8) (c : Claims) :
    open? secret (sign secret c) = if c.expiry < 0 then none else some (c, false) := by
  have hhead : Json.decodeText readAlgorithm header.render = .ok "HS256" :=
    Json.decodeText_render rfl readAlgorithm_header
  have hclaims : Json.decodeText readClaims c.toJson.render = .ok c :=
    Json.decodeText_render rfl (readClaims_toJson c)
  have haudience : Json.decodeText readAudience c.toJson.render = .ok false :=
    Json.decodeText_render rfl (readAudience_toJson c)
  have hcovered : splitLast (encodeText header.render ++ '.' :: encodeText c.toJson.render) =
      some (encodeText header.render, encodeText c.toJson.render) :=
    splitLast_append _ (Base64Url.dot_not_mem_encode _)
  unfold open? sign
  rw [String.toList_ofList, splitLast_append _ (Base64Url.dot_not_mem_encode _)]
  simp only [Option.bind_eq_bind, Option.bind_some, hcovered, decodeText_encodeText, hhead, hclaims,
    haudience, Base64Url.decode_eq_some.mpr rfl, Except.toOption, ne_eq, not_true_eq_false,
    if_false, Option.bind_none]

structure Genuine (secret : List UInt8) (token : String) (head body code : List Char) : Prop where
  parts : token.toList = head ++ '.' :: (body ++ '.' :: code)
  plain : '.' ∉ head ∧ '.' ∉ body ∧ '.' ∉ code
  named : ∃ text, decodeText head = some text ∧ Json.decodeText readAlgorithm text = .ok "HS256"
  signed : code = Base64Url.encode (signature secret (head ++ '.' :: body))

theorem genuine_of_open? {secret : List UInt8} {token : String} {opened : Claims × Bool}
    (h : open? secret token = some opened) :
    ∃ head body code, Genuine secret token head body code := by
  unfold open? at h
  simp only [Option.bind_eq_bind, Option.bind_eq_some_iff] at h
  obtain ⟨⟨covered, code⟩, hlast, ⟨head, body⟩, hfirst, text, htext, algorithm, hread, h⟩ := h
  dsimp only at hfirst htext h
  obtain ⟨htoken, hcode⟩ := splitLast_eq_some hlast
  obtain ⟨hcovered, hbody⟩ := splitLast_eq_some hfirst
  have hnamed : algorithm = "HS256" := by
    by_contra hne
    rw [if_pos hne] at h
    cases h
  rw [if_neg (not_not.mpr hnamed)] at h
  obtain ⟨bytes, hbytes, h⟩ := Option.bind_eq_some_iff.mp h
  have hsigned : bytes = signature secret covered := by
    by_contra hne
    rw [if_pos hne] at h
    cases h
  have hhead : '.' ∉ head := by
    obtain ⟨bytes, hbytes, -⟩ := Option.bind_eq_some_iff.mp htext
    exact dot_not_mem_of_decode hbytes
  subst hcovered hnamed hsigned
  refine ⟨head, body, code, ?_, ⟨hhead, hbody, hcode⟩, ⟨text, htext, ?_⟩,
    Base64Url.decode_eq_some.mp hbytes⟩
  · rw [htoken, List.append_assoc, List.cons_append]
  · cases hdecoded : Json.decodeText readAlgorithm text with
    | error => rw [hdecoded] at hread; cases hread
    | ok => rw [hdecoded] at hread; cases hread; rfl

end SignedToken

namespace SigningKey

open SignedToken

variable (k : SigningKey)

/-- Expiry compares seconds as they are: neither the sign of a claim nor the leeway wraps round. -/
theorem isExpired_eq {now : UInt64} {c : Claims} (hc : 0 ≤ c.expiry.toInt) (hnow : k.leeway ≤ now) :
    k.isExpired now c = decide (c.expiry.toInt < now.toNat - k.leeway.toNat) := by
  have hexpiry : c.expiry.toUInt64.toNat = c.expiry.toInt.toNat :=
    Int64.toNat_toUInt64_of_le (Int64.le_iff_toInt_le.mpr hc)
  have hle : k.leeway.toNat ≤ now.toNat := UInt64.le_iff_toNat_le.mp hnow
  unfold isExpired
  rw [decide_eq_decide, UInt64.lt_iff_toNat_lt, UInt64.toNat_sub_of_le _ _ hnow, hexpiry]
  omega

/-- With a leeway of a minute, claims up to the second 400 expire when 460 is over. -/
example :
    let k : SigningKey := ⟨[], 60⟩
    k.isExpired 460 ⟨"7", 100, 400⟩ = false ∧ k.isExpired 461 ⟨"7", 100, 400⟩ = true := by
  decide

theorem expiry_issued (start : Int64) (ttl : UInt64) :
    (Int64.ofInt (min (start.toInt + min (ttl.toNat : Int) latest) latest)).toInt =
      min (start.toInt + min (ttl.toNat : Int) latest) latest := by
  have hstart := start.le_toInt
  have hlatest : latest = 0x7fffffffffffffff := rfl
  exact Int64.toInt_ofInt_of_le (by omega) (by omega)

/-- What a key promises of its tokens: claims that it signs are judged by their expiry and then by
their subject, what it issues holds until its expiry and the leeway are over, and nothing is
accepted that is not signed with its secret. -/
structure Honours : Prop where
  signed : ∀ (c : Claims) (now : UInt64), 0 ≤ c.expiry.toInt → k.leeway ≤ now →
    k.verifier now (k.sign c) =
      if c.expiry.toInt < now.toNat - k.leeway.toNat then .error .expired
      else (UserId.parse c.subject).mapError fun _ => .unknownUser
  issued : ∀ (start : Int64) (u : UserId) (ttl now : UInt64), k.leeway ≤ now →
    (now.toNat : Int) ≤ min (start.toInt + min (ttl.toNat : Int) latest) latest + k.leeway.toNat →
    k.verifier now (k.issue start u ttl) = .ok u
  genuine : ∀ (now : UInt64) (token : String) (u : UserId), k.verifier now token = .ok u →
    ∃ head body code, Genuine k.secret token head body code

theorem verifier_sign {c : Claims} {now : UInt64} (hc : 0 ≤ c.expiry.toInt) (hnow : k.leeway ≤ now) :
    k.verifier now (k.sign c) =
      if c.expiry.toInt < now.toNat - k.leeway.toNat then .error .expired
      else (UserId.parse c.subject).mapError fun _ => .unknownUser := by
  have hopen : open? k.secret (k.sign c) = some (c, false) := by
    have hsince : ¬ c.expiry < 0 := fun hneg => by
      have := Int64.lt_iff_toInt_lt.mp hneg
      rw [Int64.toInt_zero] at this
      omega
    exact (open?_sign k.secret c).trans (if_neg hsince)
  unfold verifier
  rw [hopen]
  dsimp only
  rw [k.isExpired_eq hc hnow]
  cases UserId.parse c.subject <;> simp [Except.mapError]

theorem honours : k.Honours where
  signed _ _ hc hnow := k.verifier_sign hc hnow
  issued start u ttl now hnow hlast := by
    have hexpiry := expiry_issued start ttl
    have hle : k.leeway.toNat ≤ now.toNat := UInt64.le_iff_toNat_le.mp hnow
    unfold issue
    dsimp only
    rw [k.verifier_sign (by rw [hexpiry]; omega) hnow, if_neg (by rw [hexpiry]; omega),
      UserId.parse_display]
    rfl
  genuine now token u h := by
    unfold verifier at h
    cases hopen : open? k.secret token with
    | none => rw [hopen] at h; cases h
    | some opened => exact genuine_of_open? hopen

end SigningKey

end PushHub.Auth
