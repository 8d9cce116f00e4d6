import Mathlib.Data.List.TakeWhile
import ContextHmi.Inference.Provider
import ContextHmi.Json.RoundTrip

/-!
# The address of the provider

`parse_provider_url` and the constructor of `LlamaInferenceProvider`. What stands between the scheme and
the first slash is a host and a port; a host between brackets may hold colons.

* `provider_secure`        : requests go to this machine, or elsewhere by consent and over TLS;
* `providerUrl_again_iff`  : the address made of a URL is read as the same one, but for some brackets.
-/

namespace ContextHmi.Inference

open Outcome

structure ParsedUrl where
  scheme : Bytes
  host : Bytes
  path : Bytes
  port : Nat
  tls : Bool
  loopback : Bool
  deriving DecidableEq

def urlError (message : Bytes) : Error := .inference "provider_url" message

abbrev kColon : UInt8 := 0x3a
abbrev kSlash : UInt8 := 0x2f
abbrev kOpen : UInt8 := 0x5b
abbrev kClose : UInt8 := 0x5d

/-- `parse_port`. To `from_chars` a sign starts a number below 1, and a long text is out of range. -/
def parsePort (value : Bytes) : Result Nat :=
  if value ≠ [] ∧ value.all Bytes.isDigit = true ∧ 1 ≤ Json.natOf value ∧ Json.natOf value ≤ 65535 then
    .ok (Json.natOf value)
  else .error (urlError "provider URL has an invalid port")

def isLoopback (host : Bytes) : Bool := host = "127.0.0.1" || host = "localhost" || host = "::1"

/-- What stands before and after the first `://`. -/
def splitScheme : Bytes → Option (Bytes × Bytes)
  | [] => none
  | c :: rest =>
    if c = kColon ∧ rest.take 2 = [kSlash, kSlash] then some ([], rest.drop 2)
    else (splitScheme rest).map fun r => (c :: r.1, r.2)

def defaultPort (tls : Bool) : Nat := if tls then 443 else 80

/-- A host without brackets; a text with several colons is one host. -/
def splitPlain (tls : Bool) (authority : Bytes) : Result (Bytes × Nat) :=
  if authority.count kColon = 1 then do
    let port ← parsePort ((authority.dropWhile (· ≠ kColon)).drop 1)
    return (authority.takeWhile (· ≠ kColon), port)
  else .ok (authority, defaultPort tls)

/-- A host behind an opening bracket. -/
def splitBracketed (tls : Bool) (inner : Bytes) : Result (Bytes × Nat) :=
  match inner.dropWhile (· ≠ kClose) with
  | [] => .error (urlError "invalid IPv6 URL")
  | _ :: after => match after with
    | [] => .ok (inner.takeWhile (· ≠ kClose), defaultPort tls)
    | c :: text => do
      throwIf (c ≠ kColon) (urlError "invalid provider URL port")
      let port ← parsePort text
      return (inner.takeWhile (· ≠ kClose), port)

def splitAuthority (tls : Bool) (authority : Bytes) : Result (Bytes × Nat) :=
  if authority.head? = some kOpen then splitBracketed tls (authority.drop 1)
  else splitPlain tls authority

/-- The path of a URL, from its first slash on. -/
def pathOf (slash : Bytes) : Bytes :=
  if slash = [] ∨ slash = "/" then "/v1/chat/completions" else slash

/-- `parse_provider_url` behind the scheme. -/
def parseRest (allowRemote : Bool) (scheme : Bytes) (rest : Bytes) : Result ParsedUrl := do
  let tls := scheme == "https"
  let authority := rest.takeWhile (· ≠ kSlash)
  throwIf (authority = [] ∨ 0x40 ∈ authority ∨ 0x3f ∈ authority ∨ 0x23 ∈ authority)
    (urlError "provider URL has an invalid authority")
  let split ← splitAuthority tls authority
  throwIf (split.1 = []) (urlError "provider URL requires a host")
  let loopback := isLoopback (Bytes.lower split.1)
  throwIf (loopback = false ∧ allowRemote = false)
    (.inference "provider_remote_disabled"
      "non-loopback inference requires explicit remote enablement")
  throwIf (loopback = false ∧ tls = false)
    (.inference "provider_tls_required" "remote inference requires HTTPS")
  let path := pathOf (rest.dropWhile (· ≠ kSlash))
  throwIf (0x23 ∈ path ∨ 0x3f ∈ path ∨ path.head? ≠ some kSlash)
    (urlError "provider URL path must not contain a query or fragment")
  return ⟨scheme, split.1, path, split.2, tls, loopback⟩

/-- `parse_provider_url`; `tlsSupport` is whether HTTPS was compiled in. -/
def parseProviderUrl (tlsSupport allowRemote : Bool) (url : Bytes) : Result ParsedUrl :=
  match splitScheme url with
  | none => .error (urlError "provider URL requires http:// or https://")
  | some (before, rest) => do
    let scheme := Bytes.lower before
    throwIf (scheme ≠ "http" ∧ scheme ≠ "https")
      (urlError "provider URL requires http:// or https://")
    throwIf (scheme = "https" ∧ tlsSupport = false)
      (.inference "provider_tls_unavailable"
        "HTTPS provider support was not compiled into this binary")
    parseRest allowRemote scheme rest

/-- The host as it stands in an address. -/
def ParsedUrl.authority (u : ParsedUrl) : Bytes :=
  if kColon ∈ u.host then kOpen :: u.host ++ [kClose] else u.host

/-- `scheme_host_port_`. -/
def ParsedUrl.schemeHostPort (u : ParsedUrl) : Bytes :=
  u.scheme ++ "://" ++ (u.authority ++ kColon :: Bytes.decimal u.port)

/-! ### The provider -/

/-- The members of `InferenceConfig` the constructor reads. -/
structure InferenceConfig where
  llamaUrl : Bytes
  timeout : Int := 5000
  maxPromptBytes : Nat := 8192
  maxResponseBytes : Nat := 65536
  maxContextBytes : Nat := 12288
  maxOutputTokens : Int := 256
  model : Bytes := "local-model"
  allowRemote : Bool := false

/-- `models_path_for`. -/
def modelsPathFor (chatPath : Bytes) : Bytes :=
  if (bytes "/chat/completions").isSuffixOf chatPath = true then
    chatPath.take (chatPath.length - (bytes "/chat/completions").length) ++ "/models"
  else "/v1/models"

/-- What a `LlamaInferenceProvider` keeps: its configuration, and where its requests go. -/
structure LlamaProvider where
  config : InferenceConfig
  url : ParsedUrl
  modelsPath : Bytes
  groqStructuredProfile : Bool

/-- The provider as its requests and replies are checked. -/
def LlamaProvider.llama (p : LlamaProvider) : Llama where
  maxPromptBytes := p.config.maxPromptBytes
  maxResponseBytes := p.config.maxResponseBytes
  maxContextBytes := p.config.maxContextBytes
  loopback := p.url.loopback
  groqStructuredProfile := p.groqStructuredProfile

/-- The constructor of `LlamaInferenceProvider`. -/
def LlamaProvider.new (tlsSupport : Bool) (config : InferenceConfig) : Result LlamaProvider := do
  throwIf (config.maxPromptBytes = 0 ∨ config.maxResponseBytes = 0 ∨ config.maxContextBytes < 1024 ∨
      65536 < config.maxContextBytes ∨ config.maxOutputTokens < 64 ∨ 2048 < config.maxOutputTokens ∨
      config.timeout ≤ 0)
    (.inference "provider_config" "provider limits must be positive")
  throwIf (config.model = [] ∨ 256 < config.model.length)
    (.inference "provider_config" "provider model must be a bounded name")
  let parsed ← parseProviderUrl tlsSupport config.allowRemote config.llamaUrl
  let groq := Bytes.lower parsed.host = "api.groq.com" ∧
    (config.model = "openai/gpt-oss-20b" ∨ config.model = "openai/gpt-oss-120b")
  return {
    config := config
    url := parsed
    modelsPath := modelsPathFor parsed.path
    groqStructuredProfile := decide groq }

/-! ### What is accepted -/

/-- A URL that was accepted. -/
structure Accepted (tlsSupport allowRemote : Bool) (u : ParsedUrl) : Prop where
  scheme : u.scheme = "http" ∨ u.scheme = "https"
  support : u.scheme = "https" → tlsSupport = true
  tls : u.tls = (u.scheme == "https")
  host : u.host ≠ []
  hostBytes : ∀ c ∈ u.host, c ≠ kSlash ∧ c ≠ 0x40 ∧ c ≠ 0x3f ∧ c ≠ 0x23
  port : 1 ≤ u.port ∧ u.port ≤ 65535
  loopback : u.loopback = isLoopback (Bytes.lower u.host)
  remote : u.loopback = false → allowRemote = true ∧ u.tls = true
  path : u.path.head? = some kSlash ∧ u.path ≠ "/"
  pathBytes : 0x23 ∉ u.path ∧ 0x3f ∉ u.path

theorem parsePort_eq_ok {value : Bytes} {port : Nat} (h : parsePort value = .ok port) :
    1 ≤ port ∧ port ≤ 65535 := by
  unfold parsePort at h
  split_ifs at h with hvalid
  obtain rfl := Except.ok.inj h
  exact hvalid.2.2

theorem defaultPort_range (tls : Bool) : 1 ≤ defaultPort tls ∧ defaultPort tls ≤ 65535 := by
  cases tls <;> decide

theorem splitAuthority_eq_ok {tls : Bool} {authority : Bytes} {split : Bytes × Nat}
    (h : splitAuthority tls authority = .ok split) :
    split.1 ⊆ authority ∧ 1 ≤ split.2 ∧ split.2 ≤ 65535 := by
  unfold splitAuthority at h
  split_ifs at h
  · have hsub : (authority.drop 1).takeWhile (· ≠ kClose) ⊆ authority := fun c hc =>
      List.mem_of_mem_drop ((List.takeWhile_prefix _).subset hc)
    unfold splitBracketed at h
    split at h
    · cases h
    · split at h
      · obtain rfl := Except.ok.inj h
        exact ⟨hsub, defaultPort_range tls⟩
      · simp only [bind_eq_ok, pure_eq_ok] at h
        obtain ⟨-, -, port, hport, rfl⟩ := h
        exact ⟨hsub, parsePort_eq_ok hport⟩
  · unfold splitPlain at h
    split_ifs at h
    · simp only [bind_eq_ok, pure_eq_ok] at h
      obtain ⟨port, hport, rfl⟩ := h
      exact ⟨(List.takeWhile_prefix _).subset, parsePort_eq_ok hport⟩
    · obtain rfl := Except.ok.inj h
      exact ⟨List.Subset.refl _, defaultPort_range tls⟩

theorem pathOf_ne (slash : Bytes) : pathOf slash ≠ "/" := by
  unfold pathOf
  split_ifs with h
  · decide
  · exact fun heq => h (.inr heq)

theorem accepted_of_parse {tlsSupport allowRemote : Bool} {url : Bytes} {u : ParsedUrl}
    (h : parseProviderUrl tlsSupport allowRemote url = .ok u) : Accepted tlsSupport allowRemote u := by
  unfold parseProviderUrl at h
  split at h
  · cases h
  · rename_i before rest _
    simp only [parseRest, bind_eq_ok, pure_eq_ok, throwIf_eq_ok] at h
    obtain ⟨-, hscheme, -, hsupport, -, hauthority, split, hsplit, -, hhost, -, hremote, -, htls, -,
      hpath, rfl⟩ := h
    obtain ⟨hsub, hport⟩ := splitAuthority_eq_ok hsplit
    simp only [not_or, not_not] at hauthority hpath
    refine ⟨?_, ?_, rfl, hhost, ?_, hport, rfl, ?_, ⟨hpath.2.2, pathOf_ne _⟩, hpath.1, hpath.2.1⟩
    · by_cases hhttp : Bytes.lower before = "http"
      · exact .inl hhttp
      · exact .inr (not_not.mp fun hno => hscheme ⟨hhttp, hno⟩)
    · intro hhttps
      exact Bool.eq_true_of_not_eq_false fun hno => hsupport ⟨hhttps, hno⟩
    · intro c hc
      have hmem := hsub hc
      have hslash := List.mem_takeWhile_imp hmem
      refine ⟨of_decide_eq_true hslash, ?_, ?_, ?_⟩
      · intro heq
        exact hauthority.2.1 (heq ▸ hmem)
      · intro heq
        exact hauthority.2.2.1 (heq ▸ hmem)
      · intro heq
        exact hauthority.2.2.2 (heq ▸ hmem)
    · intro hloopback
      refine ⟨?_, ?_⟩
      · exact Bool.eq_true_of_not_eq_false fun hno => hremote ⟨hloopback, hno⟩
      · exact Bool.eq_true_of_not_eq_false fun hno => htls ⟨hloopback, hno⟩

/-! ### The address of an accepted URL -/

/-- The host can be told from the brackets around it, or from an opening bracket. -/
def Tellable (host : Bytes) : Prop :=
  if kColon ∈ host then kClose ∉ host else host.head? ≠ some kOpen

theorem takeWhile_append {p : UInt8 → Bool} {before after : Bytes} {c : UInt8}
    (hbefore : ∀ b ∈ before, p b = true) (hc : p c = false) :
    (before ++ c :: after).takeWhile p = before ∧ (before ++ c :: after).dropWhile p = c :: after := by
  rw [List.takeWhile_append_of_pos hbefore, List.dropWhile_append_of_pos hbefore,
    List.takeWhile_cons_of_neg (by rw [hc]; exact Bool.false_ne_true),
    List.dropWhile_cons_of_neg (by rw [hc]; exact Bool.false_ne_true), List.append_nil]
  exact ⟨rfl, rfl⟩

theorem notMem_decimal {c : UInt8} (hc : Bytes.isDigit c = false) (n : Nat) : c ∉ Bytes.decimal n := by
  intro hmem
  have hdigit := Bytes.decimal_isDigit n c hmem
  rw [hc] at hdigit
  cases hdigit

theorem parsePort_decimal {n : Nat} (h : 1 ≤ n ∧ n ≤ 65535) : parsePort (Bytes.decimal n) = .ok n := by
  have hnat := Json.natOf_decimal n
  unfold parsePort
  have hdigits : (Bytes.decimal n).all Bytes.isDigit = true :=
    List.all_eq_true.mpr (Bytes.decimal_isDigit n)
  rw [if_pos ⟨Bytes.decimal_ne_nil n, hdigits, by omega, by omega⟩, hnat]

section Again
variable {tlsSupport allowRemote : Bool} {u : ParsedUrl}

theorem splitAuthority_open (tls : Bool) (inner : Bytes) :
    splitAuthority tls (kOpen :: inner) = splitBracketed tls inner := if_pos rfl

theorem splitAuthority_again (hport : 1 ≤ u.port ∧ u.port ≤ 65535) (htell : Tellable u.host)
    (tls : Bool) :
    splitAuthority tls (u.authority ++ kColon :: Bytes.decimal u.port) = .ok (u.host, u.port) := by
  unfold Tellable at htell
  unfold ParsedUrl.authority
  by_cases hcolon : kColon ∈ u.host
  · rw [if_pos hcolon] at htell ⊢
    have hinner : kOpen :: u.host ++ [kClose] ++ kColon :: Bytes.decimal u.port =
        kOpen :: (u.host ++ kClose :: (kColon :: Bytes.decimal u.port)) := by
      rw [List.append_assoc]
      rfl
    have hhost : ∀ b ∈ u.host, decide (b ≠ kClose) = true := by
      intro b hb
      apply decide_eq_true
      rintro rfl
      exact htell hb
    obtain ⟨htake, hdrop⟩ := @takeWhile_append (fun b => decide (b ≠ kClose)) _
      (kColon :: Bytes.decimal u.port) kClose hhost rfl
    rw [hinner, splitAuthority_open, splitBracketed, hdrop]
    simp only [htake, parsePort_decimal hport]
    rfl
  · rw [if_neg hcolon] at htell ⊢
    have hcount : (u.host ++ kColon :: Bytes.decimal u.port).count kColon = 1 := by
      rw [List.count_append, List.count_cons_self, List.count_eq_zero.mpr hcolon,
        List.count_eq_zero.mpr (notMem_decimal rfl u.port)]
    have hhost : ∀ b ∈ u.host, decide (b ≠ kColon) = true := by
      intro b hb
      apply decide_eq_true
      rintro rfl
      exact hcolon hb
    obtain ⟨htake, hdrop⟩ := @takeWhile_append (fun b => decide (b ≠ kColon)) _
      (Bytes.decimal u.port) kColon hhost rfl
    have hhead : (u.host ++ kColon :: Bytes.decimal u.port).head? ≠ some kOpen := by
      cases hlist : u.host with
      | nil =>
        intro hopen
        cases hopen
      | cons b host =>
        rw [hlist] at htell
        exact htell
    unfold splitAuthority
    rw [if_neg hhead, splitPlain, if_pos hcount, htake, hdrop]
    show (parsePort (Bytes.decimal u.port) >>= fun port => pure (u.host, port)) = _
    rw [parsePort_decimal hport]
    rfl

theorem splitAuthority_other (htell : ¬ Tellable u.host) (tls : Bool) (port : Nat) :
    splitAuthority tls (u.authority ++ kColon :: Bytes.decimal u.port) ≠ .ok (u.host, port) := by
  intro h
  have hbracketed : ∀ inner, splitBracketed tls inner = .ok (u.host, port) →
      inner.takeWhile (· ≠ kClose) = u.host := by
    intro inner h
    unfold splitBracketed at h
    split at h
    · cases h
    · split at h
      · exact congrArg Prod.fst (Except.ok.inj h)
      · simp only [bind_eq_ok, pure_eq_ok] at h
        obtain ⟨-, -, _, -, heq⟩ := h
        exact congrArg Prod.fst heq
  unfold Tellable at htell
  unfold ParsedUrl.authority at h
  by_cases hcolon : kColon ∈ u.host
  · rw [if_pos hcolon] at htell h
    rw [not_not] at htell
    rw [List.append_assoc] at h
    have htake := hbracketed _ (splitAuthority_open tls _ ▸ h)
    have hmem : kClose ∈ u.host := htell
    rw [← htake] at hmem
    have hother := List.mem_takeWhile_imp hmem
    exact of_decide_eq_true hother rfl
  · rw [if_neg hcolon] at htell h
    rw [not_not] at htell
    cases hlist : u.host with
    | nil =>
      rw [hlist] at htell
      cases htell
    | cons b host =>
      rw [hlist] at htell
      obtain rfl := Option.some.inj htell
      rw [hlist] at h hbracketed
      have htake : (host ++ kColon :: Bytes.decimal u.port).takeWhile (· ≠ kClose) =
          kOpen :: host := hbracketed _ (splitAuthority_open tls _ ▸ h)
      -- The prefix is longer than the host, so that the colon is in it.
      have hprefix : kOpen :: host <+: host ++ kColon :: Bytes.decimal u.port :=
        htake ▸ List.takeWhile_prefix _
      have htaken := List.prefix_iff_eq_take.mp hprefix
      have hmem : kColon ∈ kOpen :: host := by
        rw [htaken, List.length_cons, List.take_append]
        simp
      exact hcolon (hlist ▸ hmem)

theorem Accepted.authorityBytes (h : Accepted tlsSupport allowRemote u) :
    ∀ c ∈ u.authority ++ kColon :: Bytes.decimal u.port,
      c ≠ kSlash ∧ c ≠ 0x40 ∧ c ≠ 0x3f ∧ c ≠ 0x23 := by
  intro c hc
  have hdigits : c ∈ kColon :: Bytes.decimal u.port → c ≠ kSlash ∧ c ≠ 0x40 ∧ c ≠ 0x3f ∧ c ≠ 0x23 := by
    rintro (_ | ⟨_, hdigit⟩)
    · decide
    · refine ⟨?_, ?_, ?_, ?_⟩ <;> rintro rfl <;> exact notMem_decimal rfl u.port hdigit
  rcases List.mem_append.mp hc with hauthority | htail
  · unfold ParsedUrl.authority at hauthority
    split_ifs at hauthority
    · rcases List.mem_append.mp hauthority with (_ | ⟨_, hhost⟩) | hclose
      · decide
      · exact h.hostBytes c hhost
      · rw [List.mem_singleton.mp hclose]
        decide
    · exact h.hostBytes c hauthority
  · exact hdigits htail

theorem splitScheme_append {before rest : Bytes} (h : kColon ∉ before) :
    splitScheme (before ++ kColon :: kSlash :: kSlash :: rest) = some (before, rest) := by
  induction before with
  | nil => rfl
  | cons c before ih =>
    rw [List.mem_cons, not_or] at h
    rw [List.cons_append, splitScheme, if_neg (fun hcolon => h.1 hcolon.1.symm), ih h.2]
    rfl

theorem parseProviderUrl_again (h : Accepted tlsSupport allowRemote u) :
    parseProviderUrl tlsSupport allowRemote (u.schemeHostPort ++ u.path) =
      parseRest allowRemote u.scheme ((u.authority ++ kColon :: Bytes.decimal u.port) ++ u.path) := by
  have hscheme : kColon ∉ u.scheme ∧ Bytes.lower u.scheme = u.scheme := by
    rcases h.scheme with heq | heq <;> rw [heq] <;> decide
  have hsplit : splitScheme (u.schemeHostPort ++ u.path) =
      some (u.scheme, (u.authority ++ kColon :: Bytes.decimal u.port) ++ u.path) := by
    rw [← splitScheme_append hscheme.1]
    congr 1
    simp only [ParsedUrl.schemeHostPort, List.append_assoc]
    rfl
  unfold parseProviderUrl
  rw [hsplit]
  dsimp only
  rw [hscheme.2, throwIf_of_not _ (fun hother => h.scheme.elim hother.1 hother.2),
    throwIf_of_not _ (fun hno => Bool.false_ne_true (hno.2.symm.trans (h.support hno.1)))]
  rfl

/-- **The address a provider connects to is read as the URL it was made of** exactly when the host can
be told from its brackets. -/
theorem providerUrl_again_iff {url : Bytes} (h : parseProviderUrl tlsSupport allowRemote url = .ok u) :
    parseProviderUrl tlsSupport allowRemote (u.schemeHostPort ++ u.path) = .ok u ↔ Tellable u.host := by
  have hacc := accepted_of_parse h
  obtain ⟨path, hpath⟩ : ∃ path, u.path = kSlash :: path := by
    have hhead := hacc.path.1
    cases hlist : u.path with
    | nil =>
      rw [hlist] at hhead
      cases hhead
    | cons c path =>
      rw [hlist] at hhead
      exact ⟨path, by rw [Option.some.inj hhead]⟩
  have hsection : ∀ b ∈ u.authority ++ kColon :: Bytes.decimal u.port, decide (b ≠ kSlash) = true :=
    fun b hb => decide_eq_true (hacc.authorityBytes b hb).1
  obtain ⟨htake, hdrop⟩ := @takeWhile_append (fun b => decide (b ≠ kSlash)) _ path kSlash hsection rfl
  rw [← hpath] at htake hdrop
  rw [parseProviderUrl_again hacc]
  constructor
  · intro hagain
    simp only [parseRest, htake, bind_eq_ok, pure_eq_ok, throwIf_eq_ok] at hagain
    obtain ⟨-, -, split, hsplit, -, -, -, -, -, -, -, -, hu⟩ := hagain
    have hhost : split.1 = u.host := congrArg ParsedUrl.host hu
    by_contra htell
    refine splitAuthority_other htell (u.scheme == "https") split.2 ?_
    rw [← hhost]
    exact hsplit
  · intro htell
    have hsplit := splitAuthority_again hacc.port htell (u.scheme == "https")
    have hauthority : ¬ (u.authority ++ kColon :: Bytes.decimal u.port = [] ∨
        0x40 ∈ u.authority ++ kColon :: Bytes.decimal u.port ∨
        0x3f ∈ u.authority ++ kColon :: Bytes.decimal u.port ∨
        0x23 ∈ u.authority ++ kColon :: Bytes.decimal u.port) := by
      rintro (hnil | hat | hquery | hfragment)
      · exact List.cons_ne_nil _ _ (List.append_eq_nil_iff.mp hnil).2
      · exact (hacc.authorityBytes _ hat).2.1 rfl
      · exact (hacc.authorityBytes _ hquery).2.2.1 rfl
      · exact (hacc.authorityBytes _ hfragment).2.2.2 rfl
    have hloopback : isLoopback (Bytes.lower u.host) = u.loopback := hacc.loopback.symm
    have hremote : ¬ (u.loopback = false ∧ allowRemote = false) := by
      rintro ⟨hfar, hno⟩
      exact Bool.false_ne_true (hno.symm.trans (hacc.remote hfar).1)
    have htls : ¬ (u.loopback = false ∧ (u.scheme == "https") = false) := by
      rintro ⟨hfar, hno⟩
      exact Bool.false_ne_true (hno.symm.trans (hacc.tls.symm.trans (hacc.remote hfar).2))
    have hpathOf : pathOf u.path = u.path := if_neg (by
      rintro (hnil | hroot)
      · rw [hnil] at hpath
        cases hpath
      · exact hacc.path.2 hroot)
    have hclean : ¬ (0x23 ∈ u.path ∨ 0x3f ∈ u.path ∨ u.path.head? ≠ some kSlash) := by
      rintro (hfragment | hquery | hhead)
      · exact hacc.pathBytes.1 hfragment
      · exact hacc.pathBytes.2 hquery
      · exact hhead hacc.path.1
    simp only [parseRest, htake, hdrop, bind_eq_ok, pure_eq_ok, throwIf_eq_ok]
    refine ⟨(), hauthority, _, hsplit, (), hacc.host, (), ?_, (), ?_, (), ?_, ?_⟩
    · rwa [hloopback]
    · rwa [hloopback]
    · rwa [hpathOf]
    · rw [hloopback, hpathOf, ← hacc.tls]

theorem mem_modelsPathFor {chatPath : Bytes} {c : UInt8} (h : c ∈ modelsPathFor chatPath) :
    c ∈ chatPath ∨ c ∈ bytes "/v1/models" := by
  unfold modelsPathFor at h
  split_ifs at h
  · have hsub : ∀ c ∈ bytes "/models", c ∈ bytes "/v1/models" := by decide +kernel
    rcases List.mem_append.mp h with hstem | hmodels
    · exact .inl (List.mem_of_mem_take hstem)
    · exact .inr (hsub c hmodels)
  · exact .inr h

theorem modelsPathFor_head {chatPath : Bytes} (h : chatPath.head? = some kSlash) :
    (modelsPathFor chatPath).head? = some kSlash := by
  unfold modelsPathFor
  split_ifs
  · rw [List.head?_append, List.head?_take]
    split_ifs
    · rfl
    · rw [h]
      rfl
  · rfl

/-- A configuration whose limits are within their bounds. -/
structure InferenceConfig.Bounded (config : InferenceConfig) : Prop where
  timeout : 0 < config.timeout
  prompt : 0 < config.maxPromptBytes
  response : 0 < config.maxResponseBytes
  context : 1024 ≤ config.maxContextBytes ∧ config.maxContextBytes ≤ 65536
  outputTokens : 64 ≤ config.maxOutputTokens ∧ config.maxOutputTokens ≤ 2048
  model : config.model ≠ [] ∧ config.model.length ≤ 256

/-- Where the requests of a provider go, and with which limits. -/
structure Confined (tlsSupport : Bool) (config : InferenceConfig) (p : LlamaProvider) : Prop where
  configured : p.config = config
  limits : p.config.Bounded
  accepted : Accepted tlsSupport config.allowRemote p.url
  name : p.llama.name = "llama.cpp" ↔
    Bytes.lower p.url.host ∈ [bytes "127.0.0.1", "localhost", "::1"]
  remote : p.llama.name ≠ "llama.cpp" →
    config.allowRemote = true ∧ tlsSupport = true ∧ p.url.scheme = "https"
  modelsPath : p.modelsPath.head? = some kSlash ∧ 0x23 ∉ p.modelsPath ∧ 0x3f ∉ p.modelsPath

/-- **The requests of a provider go to this machine, or elsewhere by consent and over TLS**; a name that
says the model is local is true, neither path has a query or a fragment, and every limit is within
its bounds. -/
theorem provider_secure {config : InferenceConfig} {p : LlamaProvider}
    (h : LlamaProvider.new tlsSupport config = .ok p) : Confined tlsSupport config p := by
  simp only [LlamaProvider.new, bind_eq_ok, pure_eq_ok, throwIf_eq_ok] at h
  obtain ⟨-, hlimits, -, hmodel, parsed, hparsed, rfl⟩ := h
  have hacc := accepted_of_parse hparsed
  have hname : ∀ llama : Llama, llama.name = "llama.cpp" ↔ llama.loopback = true := by
    intro llama
    unfold Llama.name
    cases llama.loopback <;> decide
  refine ⟨rfl, ?_, hacc, ?_, ?_, ⟨modelsPathFor_head hacc.path.1, ?_, ?_⟩⟩
  · rw [not_or, not_lt] at hmodel
    show config.Bounded
    exact ⟨by omega, by omega, by omega, by omega, by omega, hmodel⟩
  · rw [hname]
    show parsed.loopback = true ↔ _
    rw [hacc.loopback]
    simp [isLoopback, or_assoc]
  · intro hremote
    rw [ne_eq, hname] at hremote
    obtain ⟨hallowed, htls⟩ := hacc.remote (Bool.eq_false_of_not_eq_true hremote)
    have hscheme : parsed.scheme = "https" := beq_iff_eq.mp (hacc.tls.symm.trans htls)
    exact ⟨hallowed, hacc.support hscheme, hscheme⟩
  · intro hfragment
    rcases mem_modelsPathFor hfragment with hpath | hmodels
    · exact hacc.pathBytes.1 hpath
    · revert hmodels
      decide
  · intro hquery
    rcases mem_modelsPathFor hquery with hpath | hmodels
    · exact hacc.pathBytes.2 hpath
    · revert hmodels
      decide

end Again

/-- A provider of this machine, and one elsewhere. -/
def sampleAddress (url : Bytes) : InferenceConfig where
  llamaUrl := url
  allowRemote := true

theorem provider_secure_sample :
    ∃ p, LlamaProvider.new true (sampleAddress "HTTPS://api.example") = .ok p ∧
      Confined true (sampleAddress "HTTPS://api.example") p := by
  obtain ⟨p, hp⟩ : ∃ p, LlamaProvider.new true (sampleAddress "HTTPS://api.example") = .ok p := ⟨_, rfl⟩
  exact ⟨p, hp, provider_secure hp⟩

/-- A host that begins with a bracket: it is accepted, and its address is not. -/
theorem providerUrl_again_sample : ∃ u, parseProviderUrl true true "https://[[a]/v1" = .ok u ∧
    parseProviderUrl true true (u.schemeHostPort ++ u.path) ≠ .ok u := by
  have hsome : parseProviderUrl true true "https://[[a]/v1" =
      .ok ⟨"https", "[a", "/v1", 443, true, false⟩ := by decide +kernel
  refine ⟨_, hsome, fun hagain => ?_⟩
  have htell : Tellable (bytes "[a") := (providerUrl_again_iff hsome).mp hagain
  unfold Tellable at htell
  revert htell
  decide

end ContextHmi.Inference
