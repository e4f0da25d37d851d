import PushHub.CommandLine.Run
import PushHub.Proofs.Config.Reading
import PushHub.Proofs.SocketAddress
import PushHub.Proofs.Toml.Document

/-! A configuration that was read is printed, and what is printed is read as the same configuration:
section by section, then the whole document, then what the command prints of it. -/
namespace PushHub

namespace Toml

/-! ## Typed data -/

def number (n : Nat) : Node := .integer (Int64.ofInt n)

theorem asNat_number {n : Nat} (hn : n ≤ greatest) (expected : String) :
    (number n).asNat expected = .ok n := by
  have hvalue : (Int64.ofInt n).toInt = n := by
    unfold greatest at hn
    apply Int64.toInt_ofInt_of_le <;> omega
  simp [number, Node.asNat, hvalue]

theorem mapM_eq_ok {α β ε : Type} {f : α → Except ε β} {g : α → β} {xs : List α}
    (h : ∀ x ∈ xs, f x = .ok (g x)) : xs.mapM f = .ok (xs.map g) := by
  induction xs with
  | nil => rfl
  | cons x xs ih =>
    rw [List.mapM_cons, h x List.mem_cons_self, ih fun y hy => h y (List.mem_cons_of_mem x hy)]
    rfl

theorem asTexts_texts (ss : List String) : (Node.array (ss.map .text)).asTexts = .ok ss := by
  show (ss.map Node.text).mapM Node.asText = .ok ss
  rw [List.mapM_map]
  exact (mapM_eq_ok (g := id) fun _ _ => rfl).trans (congrArg _ (List.map_id ss))

theorem section_table {expected : String} {fields : List Field} {o : Origin} {ms : Members}
    (h : ∀ m ∈ ms, ∃ f, fields.find? (fun f => f.name == m.1) = some f ∧ f.check m.2 = .ok ()) :
    Node.section expected fields (.table o ms) = .ok ms := by
  unfold Node.section
  rw [bind_eq_ok]
  refine ⟨(), forM_eq_ok.mpr fun m hm => ?_, rfl⟩
  obtain ⟨f, hf, hcheck⟩ := h m hm
  simp only [hf, hcheck]

theorem check_of {α : Type} {name : String} {read : Node → Decoded α} {v : Node} {a : α}
    (h : read v = .ok a) : (Field.of name read).check v = .ok () := by
  simp [Field.of, h, Except.map]

theorem name_of {α : Type} (name : String) (read : Node → Decoded α) :
    (Field.of name read).name = name := rfl

namespace Row

variable {α : Type} {row : Row} {k j : String} {v : Node} {read : Node → Decoded α} {d : α}

theorem getD_cons_self : getD ((k, v) :: row) k read d = read v := by
  simp [getD]

theorem getD_cons_ne (h : k ≠ j) : getD ((j, v) :: row) k read d = getD row k read d := by
  have hne : (k == j) = false := beq_false_of_ne h
  simp [getD, List.lookup_cons, hne]

theorem getD_nil : getD [] k read d = .ok d := rfl

end Row

end Toml

namespace Config

open Toml

/-! ## Sections -/

def hubMembers (h : HubConfig) : Members :=
  [("mailbox_capacity", number h.mailboxCapacity), ("command_buffer", number h.commandBuffer),
    ("max_connections", number h.maxConnections), ("sweep_interval_secs", number h.sweepIntervalSecs)]

def connectionMembers (s : ConnectionConfig) : Members :=
  [("auth_timeout_secs", number s.authTimeoutSecs), ("pong_wait_secs", number s.pongWaitSecs),
    ("ping_period_secs", number s.pingPeriodSecs), ("write_wait_secs", number s.writeWaitSecs),
    ("max_message_bytes", number s.maxMessageBytes),
    ("max_transport_bytes", number s.maxTransportBytes),
    ("max_subscriptions", number s.maxSubscriptions)]

def optionalMember (k : String) : Option String → Members
  | none => []
  | some s => [(k, .text s)]

def tokenMembers (ts : List (String × Nat)) : Members := ts.map fun t => (t.1, number t.2)

def authMembers (a : AuthConfig) : Members :=
  optionalMember "jwt_secret" a.jwtSecret ++ [("jwt_leeway_secs", number a.jwtLeewaySecs)] ++
    optionalMember "admin_token" a.adminToken

def authTable (a : AuthConfig) : Members :=
  authMembers a ++ [("tokens", Node.table .header (tokenMembers a.tokens))]

theorem readServer_listen (a : SocketAddress) :
    readServer (.table .header [("listen", .text a.display)]) = .ok a := by
  have hread : readAddress (.text a.display) = .ok a := by
    unfold readAddress
    dsimp only
    rw [SocketAddress.parse?_display]
  unfold readServer
  rw [section_table (by simp [name_of, check_of hread])]
  simp [Row.getD_cons_self, hread, bind, Except.bind]

theorem readHub_hubMembers {h : HubConfig} (hn : SmallHub h) :
    readHub (.table .header (hubMembers h)) = .ok h := by
  unfold SmallHub at hn
  simp only [List.forall_mem_cons, List.not_mem_nil, false_implies, implies_true, and_true] at hn
  obtain ⟨hcapacity, hbuffer, hconnections, hsweep⟩ := hn
  unfold readHub
  rw [section_table]
  · simp [hubMembers, Row.getD_cons_self, Row.getD_cons_ne, size, seconds, asNat_number, *, bind,
      Except.bind]
  · simp [hubMembers, Field.of, size, seconds, asNat_number, *, Except.map]

theorem readConnection_connectionMembers {s : ConnectionConfig} (hn : SmallConnection s) :
    readConnection (.table .header (connectionMembers s)) = .ok s := by
  unfold SmallConnection at hn
  simp only [List.forall_mem_cons, List.not_mem_nil, false_implies, implies_true, and_true] at hn
  obtain ⟨htimeout, hpong, hping, hwait, hmessage, htransport, hsubscriptions⟩ := hn
  unfold readConnection
  rw [section_table]
  · simp [connectionMembers, Row.getD_cons_self, Row.getD_cons_ne, size, seconds, asNat_number, *,
      bind, Except.bind]
  · simp [connectionMembers, Field.of, size, seconds, asNat_number, *, Except.map]

theorem readTokens_tokenMembers {ts : List (String × Nat)} (hs : Sorted ts)
    (hn : ∀ t ∈ ts, t.2 ≤ greatest) : readTokens (.table .header (tokenMembers ts)) = .ok ts := by
  have hcollect : Named.collect [] ts = ts := Named.collect_of_sorted hs
  refine readTokens_eq_ok.mpr ⟨ts, ?_, hcollect.symm⟩
  unfold Node.asCounts tokenMembers
  dsimp only
  rw [List.mapM_map]
  refine (mapM_eq_ok (g := id) fun t ht => ?_).trans (congrArg _ (List.map_id ts))
  simp [asNat_number (hn t ht), bind, Except.bind]

theorem readAuth_authMembers {a : AuthConfig} (h : PrintableAuth a) :
    readAuth (.table .header (authTable a)) = .ok a := by
  have htokens := readTokens_tokenMembers h.sorted h.users
  have hleeway := asNat_number h.leeway "u64"
  obtain ⟨secret, leeway, admin, tokens⟩ := a
  unfold readAuth
  rw [section_table]
  · cases secret <;> cases admin <;>
    simp [authTable, authMembers, optionalMember, Row.getD_cons_self, Row.getD_cons_ne, Row.getD_nil,
      seconds, Node.asText, Except.map, bind, Except.bind, htokens, hleeway]
  · cases secret <;> cases admin <;>
    simp [authTable, authMembers, optionalMember, Field.of, seconds, Node.asText, Except.map, htokens, hleeway]

/-! ## Their lines -/

theorem lines_number (k : String) {n : Nat} (hn : n ≤ greatest) :
    Lines (numberLine k n) [(k, number n)] := by
  have h := Lines.single (k := k.toList) (written_decimal hn)
  rwa [String.ofList_toList] at h

theorem lines_text (k s : String) : Lines (textLine k s) [(k, .text s)] := by
  have h := Lines.single (k := k.toList) (written_text s.toList)
  rwa [String.ofList_toList, String.ofList_toList] at h

theorem lines_optional (k : String) (o : Option String) :
    Lines (optionalLine k o) (optionalMember k o) := by
  cases o with
  | none => exact .nil
  | some s => exact lines_text k s

theorem lines_hub {h : HubConfig} (hn : SmallHub h) :
    Lines [numberLine "mailbox_capacity" h.mailboxCapacity, numberLine "command_buffer" h.commandBuffer,
      numberLine "max_connections" h.maxConnections,
      numberLine "sweep_interval_secs" h.sweepIntervalSecs].flatten (hubMembers h) := by
  unfold SmallHub at hn
  simp only [List.forall_mem_cons, List.not_mem_nil, false_implies, implies_true, and_true] at hn
  obtain ⟨hcapacity, hbuffer, hconnections, hsweep⟩ := hn
  exact Lines.flatten (.cons (lines_number _ hcapacity) (.cons (lines_number _ hbuffer)
    (.cons (lines_number _ hconnections) (.cons (lines_number _ hsweep) .nil))))

theorem lines_connection {s : ConnectionConfig} (hn : SmallConnection s) :
    Lines [numberLine "auth_timeout_secs" s.authTimeoutSecs,
      numberLine "pong_wait_secs" s.pongWaitSecs, numberLine "ping_period_secs" s.pingPeriodSecs,
      numberLine "write_wait_secs" s.writeWaitSecs, numberLine "max_message_bytes" s.maxMessageBytes,
      numberLine "max_transport_bytes" s.maxTransportBytes,
      numberLine "max_subscriptions" s.maxSubscriptions].flatten (connectionMembers s) := by
  unfold SmallConnection at hn
  simp only [List.forall_mem_cons, List.not_mem_nil, false_implies, implies_true, and_true] at hn
  obtain ⟨htimeout, hpong, hping, hwait, hmessage, htransport, hsubscriptions⟩ := hn
  exact Lines.flatten (.cons (lines_number _ htimeout) (.cons (lines_number _ hpong)
    (.cons (lines_number _ hping) (.cons (lines_number _ hwait) (.cons (lines_number _ hmessage)
    (.cons (lines_number _ htransport) (.cons (lines_number _ hsubscriptions) .nil)))))))

theorem lines_auth {a : AuthConfig} (hn : a.jwtLeewaySecs ≤ greatest) :
    Lines [optionalLine "jwt_secret" a.jwtSecret, numberLine "jwt_leeway_secs" a.jwtLeewaySecs,
      optionalLine "admin_token" a.adminToken].flatten (authMembers a) := by
  have h := Lines.flatten (.cons (lines_optional "jwt_secret" a.jwtSecret)
    (.cons (lines_number "jwt_leeway_secs" hn)
    (.cons (lines_optional "admin_token" a.adminToken) .nil)))
  simpa [authMembers] using h

theorem lines_tokens {ts : List (String × Nat)} (hn : ∀ t ∈ ts, t.2 ≤ greatest) :
    Lines (ts.map fun t => numberLine t.1 t.2).flatten (tokenMembers ts) := by
  induction ts with
  | nil => exact .nil
  | cons t ts ih =>
    exact (lines_number t.1 (hn t List.mem_cons_self)).append
      (ih fun s hs => hn s (List.mem_cons_of_mem t hs))

/-! ## The document -/

theorem feeds_section (name : String) {d : Draft} {root ms : Members} {lines : List (List Char)}
    (hs : d.settle = some root) (hb : Bare name.toList) (hnew : name ∉ root.map Prod.fst)
    (hl : Lines lines.flatten ms) (hms : (ms.map Prod.fst).Nodup) :
    Feeds d (printSection name lines) ⟨root, ms, [name], false⟩ ∧
      Draft.settle ⟨root, ms, [name], false⟩ = some (root ++ [(name, .table .header ms)]) := by
  have hfind := Members.find?_eq_none.mpr hnew
  have hnames := names_one hb
  rw [String.ofList_toList] at hnames
  exact ⟨feeds_table hnames (Draft.openTable_new hs hfind) hl hms, Draft.settle_table hfind⟩

def members (c : Config) : Members :=
  [("channels", .array (c.channels.map .text)),
    ("server", .table .header [("listen", .text c.listen.display)]),
    ("hub", .table .header (hubMembers c.hub)),
    ("connection", .table .header (connectionMembers c.connection)),
    ("auth", .table .header (authTable c.auth))]

theorem nodup_authMembers (a : AuthConfig) : ((authMembers a).map Prod.fst).Nodup := by
  obtain ⟨secret, leeway, admin, tokens⟩ := a
  cases secret <;> cases admin <;> simp [authMembers, optionalMember]

theorem tokens_not_mem_authMembers (a : AuthConfig) : "tokens" ∉ (authMembers a).map Prod.fst := by
  obtain ⟨secret, leeway, admin, tokens⟩ := a
  cases secret <;> cases admin <;> simp [authMembers, optionalMember]

theorem nodup_tokenMembers {ts : List (String × Nat)} (hs : Sorted ts) :
    ((tokenMembers ts).map Prod.fst).Nodup := by
  unfold tokenMembers
  rw [List.map_map]
  apply List.pairwise_map.mpr
  refine hs.imp fun {s t} hlt heq => ?_
  rw [show s.1 = t.1 from heq] at hlt
  exact String.lt_irrefl t.1 hlt

theorem names_tokens : Names "auth.tokens".toList ["auth", "tokens"] := by
  have h := names_two (j := "auth".toList) (k := "tokens".toList) ⟨by decide, by decide⟩
    ⟨by decide, by decide⟩
  rw [String.ofList_toList, String.ofList_toList] at h
  exact h

theorem head?_chars (c : Config) : c.chars.head? = some 'c' := by
  have hkey : keyForm "channels".toList = 'c' :: "hannels".toList := by decide
  unfold chars Toml.line
  rw [hkey]
  rfl

theorem parse?_render {c : Config} (h : c.Printable) : Toml.parse? c.render = some c.members := by
  obtain ⟨hhub, hconnection, hauth⟩ := printable_iff.mp h
  have fchannels : Feeds .empty (Toml.line "channels".toList (textsForm c.channels))
      ⟨[], [("channels", .array (c.channels.map .text))], [], false⟩ :=
    feeds_line (written_texts c.channels) rfl
  have hlisten : Lines [textLine "listen" c.listen.display].flatten
      [("listen", .text c.listen.display)] := by
    simpa using lines_text "listen" c.listen.display
  have hroot : Draft.settle ⟨[], [("channels", .array (c.channels.map .text))], [], false⟩ =
      some [("channels", .array (c.channels.map .text))] := rfl
  obtain ⟨fserver, hroot⟩ := feeds_section "server" hroot ⟨by decide, by decide⟩ (by simp) hlisten
    (by simp)
  obtain ⟨fhub, hroot⟩ := feeds_section "hub" hroot ⟨by decide, by decide⟩ (by simp) (lines_hub hhub)
    (by simp [hubMembers])
  obtain ⟨fconnection, hroot⟩ := feeds_section "connection" hroot ⟨by decide, by decide⟩ (by simp)
    (lines_connection hconnection) (by simp [connectionMembers])
  obtain ⟨fauth, hroot⟩ := feeds_section "auth" hroot ⟨by decide, by decide⟩ (by simp)
    (lines_auth hauth.leeway) (nodup_authMembers c.auth)
  have hauthNew := Members.find?_eq_none.mpr (tokens_not_mem_authMembers c.auth)
  have hopen := Draft.openTable_inner hroot (Members.find?_eq_none.mpr (by simp)) hauthNew
  have ftokens := feeds_table names_tokens hopen (lines_tokens hauth.users)
    (nodup_tokenMembers hauth.sorted)
  have hall := ((((fchannels.append fserver).append fhub).append fconnection).append fauth).append
    ftokens
  refine parse?_of_feeds hall (Draft.settle_inner ?_ hauthNew) ?_
  · exact Members.find?_eq_none.mpr (by simp)
  · show c.chars.head? ≠ some '\ufeff'
    rw [head?_chars]
    decide

theorem parse_render {c : Config} (h : c.Printable) : parse c.render = .ok c := by
  obtain ⟨hhub, hconnection, hauth⟩ := printable_iff.mp h
  have hserver := readServer_listen c.listen
  have hhub := readHub_hubMembers hhub
  have hconnection := readConnection_connectionMembers hconnection
  have hauth := readAuth_authMembers hauth
  have hchannels := asTexts_texts c.channels
  have hread : ofNode (.table .header c.members) = .ok c := by
    unfold ofNode
    rw [section_table]
    · simp [members, Row.getD_cons_self, Row.getD_cons_ne, *, bind, Except.bind]
    · simp [members, Field.of, *, Except.map]
  unfold parse
  rw [parse?_render h]
  dsimp only
  rw [hread]
  rfl

end Config

/-! ## Printing what was printed -/

namespace CommandLine.World

variable {w : World} {path : Option String} {c : Config}

theorem exists_load_of_config (h : w.config path = .ok c) :
    ∃ text, Config.load text (Overrides.read w.environment) = .ok c := by
  unfold config at h
  cases path with
  | none => exact ⟨none, h⟩
  | some p =>
    cases hfile : w.file p with
    | ok text =>
      simp only [hfile] at h
      exact ⟨some text, h⟩
    | error e =>
      simp only [hfile] at h
      cases h

theorem config_of_file {p text : String} (h : w.file p = .ok text) :
    w.config (some p) = Config.load (some text) (Overrides.read w.environment) := by
  unfold config
  simp only [h]
  rfl

theorem print_of_printed {output : String} (h : w.run ⟨path, .printConfig⟩ = .printed output) :
    ∃ c, w.config path = .ok c ∧ c.print = .ok output := by
  unfold run at h
  cases hc : w.config path with
  | error e =>
    simp only [hc] at h
    cases h
  | ok c =>
    cases hp : c.print with
    | error e =>
      simp only [hc, hp] at h
      cases h
    | ok text =>
      simp only [hc, hp] at h
      cases h
      exact ⟨c, rfl, hp⟩

theorem run_printConfig (hc : w.config path = .ok c) (hp : c.Printable) :
    w.run ⟨path, .printConfig⟩ = .printed c.render := by
  simp [run, hc, Config.print_eq_ok hp]

theorem run_again {w' : World} {p output : String}
    (hrun : w.run ⟨path, .printConfig⟩ = .printed output) (hfile : w'.file p = .ok output)
    (hwithin : (Overrides.read w'.environment).Within (Overrides.read w.environment)) :
    w'.run ⟨some p, .printConfig⟩ = .printed output := by
  obtain ⟨c, hc, hprint⟩ := print_of_printed hrun
  obtain ⟨text, hload⟩ := exists_load_of_config hc
  obtain ⟨d, -, hoverride, hvalid⟩ := Config.load_eq_ok.mp hload
  have hprintable := Config.printable_of_load hload
  have houtput : output = c.render :=
    Except.ok.inj (hprint.symm.trans (Config.print_eq_ok hprintable))
  subst houtput
  have hload' : Config.load (some c.render) (Overrides.read w'.environment) = .ok c :=
    Config.load_text_eq_ok.mpr ⟨c, Config.parse_render hprintable,
      Config.override_again hoverride hwithin, hvalid⟩
  exact run_printConfig ((config_of_file hfile).trans hload') hprintable

end CommandLine.World

namespace Config

open CommandLine (World Environment)

/-- What is promised of a configuration that came out of a text and an environment. -/
structure Reloads (text : String) (environment : Environment) (c : Config) : Prop where
  prints : c.print = .ok c.render
  parses : parse c.render = .ok c
  validates : (parse c.render >>= fun d => d.validate.mapError .invalid) =
    c.validate.mapError .invalid
  /-- It is what the command prints of a file with the text, if it passes the checks. -/
  printed : ∀ (w : World) (p : String), w.file p = .ok text → w.environment = environment →
    c.validate = .ok () → w.run ⟨some p, .printConfig⟩ = .printed c.render
  again : ∀ (w w' : World) (p p' output : String), w.file p = .ok text → w.environment = environment →
    w.run ⟨some p, .printConfig⟩ = .printed output → w'.file p' = .ok output →
    (Overrides.read w'.environment).Within (Overrides.read environment) →
    w'.run ⟨some p', .printConfig⟩ = .printed output

theorem reloads {text : String} {environment : Environment} {d c : Config}
    (hparse : parse text = .ok d) (hoverride : d.override (Overrides.read environment) = .ok c) :
    Reloads text environment c := by
  have hprintable := (printable_of_parse hparse).override hoverride
  have hreparse := parse_render hprintable
  have hload : c.validate = .ok () → load (some text) (Overrides.read environment) = .ok c :=
    fun hvalid => load_text_eq_ok.mpr ⟨d, hparse, hoverride, hvalid⟩
  constructor
  · exact print_eq_ok hprintable
  · exact hreparse
  · rw [hreparse]
    rfl
  · rintro w p hfile rfl hvalid
    exact World.run_printConfig ((World.config_of_file hfile).trans (hload hvalid)) hprintable
  · rintro w w' p p' output hfile rfl hrun hfile' hwithin
    exact World.run_again hrun hfile' hwithin

/-- A text that gives a scope, the greatest number, an empty secret, and a token and its keys with marks,
backslashes and control characters. -/
def quaintText : String :=
  "channels = ['news']\n[server]\nlisten = \"[fe80::1%7]:80\"\n[hub]\nmailbox_capacity = " ++
  "9223372036854775807\n[auth]\njwt_secret = \"\"\nadmin_token = \"a'\\\"\\n\\u0001\"\n" ++
  "[auth.tokens]\n'b\"\\' = 2\n\"\\n\" = 1\n"

def quaint : Config where
  channels := ["news"]
  listen := .v6 ⟨[0xfe80, 0, 0, 0, 0, 0, 0, 1], rfl⟩ 7 80
  hub := { mailboxCapacity := 9223372036854775807 }
  auth :=
    { jwtSecret := some ""
      adminToken := some "a'\"\n\x01"
      tokens := [("\n", 1), ("b\"\\", 2)] }

/-- Another secret, with marks that end a text elsewhere. -/
def quaintEnvironment : Environment := fun name =>
  if name = Overrides.secretVariable then some "'''\"\"\"\\" else none

theorem quaint_reloads :
    parse quaintText = .ok quaint ∧
    quaint.override (Overrides.read quaintEnvironment) =
      .ok { quaint with auth := { quaint.auth with jwtSecret := some "'''\"\"\"\\" } } ∧
    Reloads quaintText quaintEnvironment
      { quaint with auth := { quaint.auth with jwtSecret := some "'''\"\"\"\\" } } := by
  have hparse : parse quaintText = .ok quaint := toOption_eq_some.mp (by decide +kernel)
  have hoverride : quaint.override (Overrides.read quaintEnvironment) =
      .ok { quaint with auth := { quaint.auth with jwtSecret := some "'''\"\"\"\\" } } :=
    toOption_eq_some.mp (by decide +kernel)
  exact ⟨hparse, hoverride, reloads hparse hoverride⟩

end Config

end PushHub
