import PushHub.Proofs.Config.Validation
import PushHub.Proofs.Text.Named

/-! What is known of every configuration that was read: its numbers can be written again, and its tokens
are in order, each of them once. -/
namespace PushHub

namespace Toml

theorem Node.asNat_le {v : Node} {expected : String} {n : Nat} (h : v.asNat expected = .ok n) :
    n ≤ greatest := by
  unfold Node.asNat at h
  split at h
  · rename_i i
    split at h
    · cases h
    · cases h
      have := i.toInt_lt
      unfold greatest
      omega
  · cases h

theorem Row.of_getD {α : Type} {row : Row} {name : String} {read : Node → Decoded α} {d a : α}
    {P : α → Prop} (h : row.getD name read d = .ok a) (hread : ∀ v, read v = .ok a → P a)
    (hd : P d) : P a := by
  unfold Row.getD at h
  split at h
  · exact hread _ h
  · cases h
    exact hd

theorem Row.getD_asNat_le {row : Row} {name expected : String} {d n : Nat} (hd : d ≤ greatest)
    (h : row.getD name (Node.asNat expected) d = .ok n) : n ≤ greatest :=
  Row.of_getD (P := (· ≤ greatest)) h (fun _ => Node.asNat_le) hd

end Toml

structure Overrides.Within (o o' : Overrides) : Prop where
  listen : o.listen = none ∨ o.listen = o'.listen
  jwtSecret : o.jwtSecret = none ∨ o.jwtSecret = o'.jwtSecret
  adminToken : o.adminToken = none ∨ o.adminToken = o'.adminToken

namespace Config

open Toml (Node Row greatest)

/-! ## Tokens -/

def Sorted (ts : List (String × Nat)) : Prop := ts.Pairwise fun s t => s.1 < t.1

variable {ts : List (String × Nat)}

theorem insertToken_eq (k : String) (n : Nat) (ts : List (String × Nat)) :
    insertToken k n ts = Named.insert k n ts := by
  induction ts with
  | nil => rfl
  | cons t ts ih => rw [insertToken, Named.insert, ih]

theorem readTokens_eq_ok {v : Node} :
    readTokens v = .ok ts ↔ ∃ counts, v.asCounts = .ok counts ∧ ts = Named.collect [] counts := by
  unfold readTokens
  simp only [insertToken_eq]
  rw [bind_eq_ok]
  constructor
  · rintro ⟨counts, hcounts, heq⟩
    cases heq
    exact ⟨counts, hcounts, rfl⟩
  · rintro ⟨counts, hcounts, rfl⟩
    exact ⟨counts, hcounts, rfl⟩

theorem asCounts_le {v : Node} {counts : List (String × Nat)} (h : v.asCounts = .ok counts) :
    ∀ t ∈ counts, t.2 ≤ greatest := by
  unfold Node.asCounts at h
  split at h
  · intro t ht
    obtain ⟨m, -, hm⟩ := exists_of_mapM_eq_ok h t ht
    obtain ⟨n, hn, heq⟩ := bind_eq_ok.mp hm
    cases heq
    exact Node.asNat_le hn
  · cases h
  · cases h

theorem readTokens_spec {v : Node} (h : readTokens v = .ok ts) :
    Sorted ts ∧ ∀ t ∈ ts, t.2 ≤ greatest := by
  obtain ⟨counts, hcounts, rfl⟩ := readTokens_eq_ok.mp h
  refine ⟨Named.sorted_collect .nil, fun t ht => ?_⟩
  rcases Named.mem_collect ht with ht | ht
  · cases ht
  · exact asCounts_le hcounts t ht

/-! ## The whole configuration -/

/-- A configuration of which everything can be written. -/
structure Printable (c : Config) : Prop where
  small : ∀ n ∈ c.numbers, n ≤ greatest
  sorted : Sorted c.auth.tokens

def SmallHub (h : HubConfig) : Prop :=
  ∀ n ∈ [h.mailboxCapacity, h.commandBuffer, h.maxConnections, h.sweepIntervalSecs], n ≤ greatest

def SmallConnection (s : ConnectionConfig) : Prop :=
  ∀ n ∈ [s.authTimeoutSecs, s.pongWaitSecs, s.pingPeriodSecs, s.writeWaitSecs, s.maxMessageBytes,
    s.maxTransportBytes, s.maxSubscriptions], n ≤ greatest

structure PrintableAuth (a : AuthConfig) : Prop where
  leeway : a.jwtLeewaySecs ≤ greatest
  sorted : Sorted a.tokens
  users : ∀ t ∈ a.tokens, t.2 ≤ greatest

theorem printable_iff {c : Config} :
    c.Printable ↔ SmallHub c.hub ∧ SmallConnection c.connection ∧ PrintableAuth c.auth := by
  have hnumbers : (∀ n ∈ c.numbers, n ≤ greatest) ↔ SmallHub c.hub ∧ SmallConnection c.connection ∧
      c.auth.jwtLeewaySecs ≤ greatest ∧ ∀ t ∈ c.auth.tokens, t.2 ≤ greatest := by
    unfold numbers SmallHub SmallConnection
    simp only [List.forall_mem_append, List.forall_mem_cons, List.forall_mem_map]
    grind
  constructor
  · rintro ⟨hsmall, hsorted⟩
    obtain ⟨hhub, hconnection, hleeway, husers⟩ := hnumbers.mp hsmall
    exact ⟨hhub, hconnection, hleeway, hsorted, husers⟩
  · rintro ⟨hhub, hconnection, hleeway, hsorted, husers⟩
    exact ⟨hnumbers.mpr ⟨hhub, hconnection, hleeway, husers⟩, hsorted⟩

theorem smallHub_default : SmallHub {} := by
  unfold SmallHub
  decide

theorem smallConnection_default : SmallConnection {} := by
  unfold SmallConnection
  decide

theorem printableAuth_default : PrintableAuth {} := ⟨by decide, .nil, by simp⟩

theorem small_of_readHub {v : Node} {h : HubConfig} (hr : readHub v = .ok h) : SmallHub h := by
  unfold readHub at hr
  simp only [bind_eq_ok] at hr
  obtain ⟨row, -, capacity, hcapacity, buffer, hbuffer, connections, hconnections, sweep, hsweep,
    heq⟩ := hr
  cases heq
  have hcapacity := Row.getD_asNat_le (by decide) hcapacity
  have hbuffer := Row.getD_asNat_le (by decide) hbuffer
  have hconnections := Row.getD_asNat_le (by decide) hconnections
  have hsweep := Row.getD_asNat_le (by decide) hsweep
  simp [SmallHub, *]

theorem small_of_readConnection {v : Node} {s : ConnectionConfig} (hr : readConnection v = .ok s) :
    SmallConnection s := by
  unfold readConnection at hr
  simp only [bind_eq_ok] at hr
  obtain ⟨row, -, timeout, htimeout, pong, hpong, ping, hping, wait, hwait, message, hmessage,
    transport, htransport, subscriptions, hsubscriptions, heq⟩ := hr
  cases heq
  have htimeout := Row.getD_asNat_le (by decide) htimeout
  have hpong := Row.getD_asNat_le (by decide) hpong
  have hping := Row.getD_asNat_le (by decide) hping
  have hwait := Row.getD_asNat_le (by decide) hwait
  have hmessage := Row.getD_asNat_le (by decide) hmessage
  have htransport := Row.getD_asNat_le (by decide) htransport
  have hsubscriptions := Row.getD_asNat_le (by decide) hsubscriptions
  simp [SmallConnection, *]

theorem printable_of_readAuth {v : Node} {a : AuthConfig} (hr : readAuth v = .ok a) :
    PrintableAuth a := by
  unfold readAuth at hr
  simp only [bind_eq_ok] at hr
  obtain ⟨row, -, secret, -, leeway, hleeway, admin, -, tokens, htokens, heq⟩ := hr
  cases heq
  have htable := Row.of_getD (P := fun ts => Sorted ts ∧ ∀ t ∈ ts, t.2 ≤ greatest) htokens
    (fun _ => readTokens_spec) ⟨.nil, by simp⟩
  exact ⟨Row.getD_asNat_le (by decide) hleeway, htable.1, htable.2⟩

theorem printable_of_ofNode {v : Node} {c : Config} (hr : ofNode v = .ok c) : c.Printable := by
  unfold ofNode at hr
  simp only [bind_eq_ok] at hr
  obtain ⟨row, -, channels, -, listen, -, hub, hhub, connection, hconnection, auth, hauth, heq⟩ := hr
  cases heq
  refine printable_iff.mpr ⟨?_, ?_, ?_⟩
  · exact Row.of_getD hhub (fun _ => small_of_readHub) smallHub_default
  · exact Row.of_getD hconnection (fun _ => small_of_readConnection) smallConnection_default
  · exact Row.of_getD hauth (fun _ => printable_of_readAuth) printableAuth_default

theorem printable_of_parse {text : String} {c : Config} (hp : parse text = .ok c) : c.Printable := by
  unfold parse at hp
  split at hp
  · cases hp
  · rw [mapError_eq_ok] at hp
    exact printable_of_ofNode hp

theorem printable_default : ({} : Config).Printable :=
  printable_iff.mpr ⟨smallHub_default, smallConnection_default, printableAuth_default⟩

theorem override_eq_ok {c c' : Config} {o : Overrides} : c.override o = .ok c' ↔
    (∀ text, o.listen = some text → SocketAddress.parse? text = some c'.listen) ∧
    (o.listen = none → c'.listen = c.listen) ∧
    c' = { c with
      listen := c'.listen
      auth := { c.auth with
        jwtSecret := o.jwtSecret <|> c.auth.jwtSecret
        adminToken := o.adminToken <|> c.auth.adminToken } } := by
  unfold Config.override
  cases o.listen with
  | none =>
    constructor
    · intro h
      cases h
      exact ⟨by simp, fun _ => rfl, rfl⟩
    · rintro ⟨-, hlisten, heq⟩
      rw [hlisten rfl] at heq
      rw [heq]
      rfl
  | some text =>
    cases hp : SocketAddress.parse? text with
    | none =>
      constructor
      · intro h
        simp [hp, bind, Except.bind] at h
      · rintro ⟨hlisten, -⟩
        have := hlisten text rfl
        rw [hp] at this
        cases this
    | some a =>
      constructor
      · intro h
        simp only [hp] at h
        cases h
        exact ⟨by simp [hp], by simp, rfl⟩
      · rintro ⟨hlisten, -, heq⟩
        have ha := hlisten text rfl
        rw [hp, Option.some.injEq] at ha
        rw [← ha] at heq
        simp only [hp]
        rw [heq]
        rfl

theorem Printable.override {c c' : Config} {o : Overrides} (h : c.Printable)
    (ho : c.override o = .ok c') : c'.Printable := by
  obtain ⟨-, -, heq⟩ := override_eq_ok.mp ho
  rw [heq]
  exact ⟨h.small, h.sorted⟩

/-- What took its place once stays when it is found again, or not at all. -/
theorem override_again {c d : Config} {o o' : Overrides} (ho : d.override o = .ok c)
    (hw : o'.Within o) : c.override o' = .ok c := by
  obtain ⟨hlisten, -, heq⟩ := override_eq_ok.mp ho
  have hsecret : (o'.jwtSecret <|> c.auth.jwtSecret) = c.auth.jwtSecret := by
    rcases hw.jwtSecret with h | h
    · rw [h]
      rfl
    · rw [h, heq]
      cases o.jwtSecret <;> rfl
  have hadmin : (o'.adminToken <|> c.auth.adminToken) = c.auth.adminToken := by
    rcases hw.adminToken with h | h
    · rw [h]
      rfl
    · rw [h, heq]
      cases o.adminToken <;> rfl
  refine override_eq_ok.mpr ⟨fun text htext => ?_, fun _ => rfl, by rw [hsecret, hadmin]⟩
  rcases hw.listen with h | h
  · rw [h] at htext
    cases htext
  · exact hlisten text (h ▸ htext)

theorem load_eq_ok {text : Option String} {o : Overrides} {c : Config} : load text o = .ok c ↔
    ∃ d, text.elim (.ok {}) parse = .ok d ∧ d.override o = .ok c ∧ c.validate = .ok () := by
  unfold load
  cases text <;> simp only [bind_eq_ok, mapError_eq_ok, Option.elim_none, Option.elim_some]
  all_goals
    constructor
    · rintro ⟨d, hd, e, he, _, hvalid, heq⟩
      cases heq
      exact ⟨d, hd, he, hvalid⟩
    · rintro ⟨d, hd, ho, hvalid⟩
      exact ⟨d, hd, c, ho, (), hvalid, rfl⟩

theorem load_text_eq_ok {text : String} {o : Overrides} {c : Config} : load (some text) o = .ok c ↔
    ∃ d, parse text = .ok d ∧ d.override o = .ok c ∧ c.validate = .ok () := by
  rw [load_eq_ok, Option.elim_some]

theorem printable_of_load {text : Option String} {o : Overrides} {c : Config}
    (hl : load text o = .ok c) : c.Printable := by
  obtain ⟨d, hd, ho, -⟩ := load_eq_ok.mp hl
  cases text with
  | none =>
    cases hd
    exact printable_default.override ho
  | some text => exact (printable_of_parse hd).override ho

theorem print_eq_ok {c : Config} (h : c.Printable) : c.print = .ok c.render := by
  unfold print
  rw [if_pos]
  simpa using h.small

end Config

end PushHub
