/-
  THE PROXY AND THE ENGINE SEE THE SAME HOST (the URL branches of `vellaveto-mcp/src/extractor.rs` and of
  `scan_params_for_targets_inner` of the server, `extract_domain` of the engine).

  PROGRAM.      Three parsers take the host out of `http(s)://[userinfo@]host[:port]tail`.  The engine cuts
                the authority off at `/`, `?`, `#` or a backslash, then looks for the last `@`, then for
                the port.  The two walks cut at `/` (the server also at a backslash), decode, and
                then cut at the first `:` BEFORE they look for the `@`.

  SPEC.         The domain that each walk pushes is the one that the engine extracts: the host in lower case.

  CORRECTNESS.
    1. `extractDomain_url`        the engine always extracts the host;
    2. `hostOf_cases`             what the cuts of the walks leave of an authority and a decoded tail;
    3. `same_host_iff`            they leave the host exactly if no colon of the userinfo is in the way, no
                                  backslash follows the host, and what follows can be decoded;
    4. `password_hides_host`      `http://safe.com:x@evil.com/` is `safe.com` for the walks.
-/
import Vellaveto.Engine.DomainNormal
import Vellaveto.Engine.UrlAuthority
import Vellaveto.Lib.AsciiCase
import Vellaveto.Lib.Cuts
import Vellaveto.Lib.Slice
import Vellaveto.Server.ParamScan
import Vellaveto.Types.Unicode

namespace Vellaveto.Server

open Vellaveto.Lib
open Vellaveto.Domain
open Vellaveto.Extractor (Targets hostOf withinLimits addHttpTarget extractTargetsInner extractResourceAction)

/-! ### URLs -/

/-- What no userinfo has here. -/
def userinfoStops : List Char := ['/', '?', '#', '@', '%', '\\']

/-- A URL `http(s)://[userinfo@]host[:port]tail`. -/
structure HttpUrl where
  scheme : List Char
  userinfo : Option (List Char)
  host : List Char
  port : Option (List Char)
  tail : List Char
  scheme_http : SameCaseless scheme "http".toList ∨ SameCaseless scheme "https".toList
  userinfo_plain : ∀ u ∈ userinfo, ∀ c ∈ u, c ∉ userinfoStops
  host_ne : host ≠ []
  host_chars : ∀ c ∈ host, isDomainChar c = true
  host_dot : host.getLast? ≠ some '.'
  port_digits : ∀ p ∈ port, ∀ c ∈ p, c.isDigit = true
  tail_starts : IsTail tail

namespace HttpUrl

variable (url : HttpUrl)

/-- The userinfo with its `@`. -/
def userinfoPart : List Char := (url.userinfo.map (· ++ ['@'])).getD []

/-- The port with its colon. -/
def portPart : List Char := (url.port.map (':' :: ·)).getD []

def authorityPart : List Char := url.userinfoPart ++ (url.host ++ url.portPart)

def chars : List Char := url.scheme ++ (separator ++ (url.authorityPart ++ url.tail))

def text : String := String.ofList url.chars

/-- The host in lower case. -/
def lowerHost : String := toAsciiLowercase (String.ofList url.host)

/-- What the MCP walks decode of the tail. -/
def mcpRest : List Char := beforeFirst '/' url.tail

/-- What the server decodes of it. -/
def serverRest : List Char := beforeFirst '/' (backslashesToSlashes url.tail)

end HttpUrl

/-- **The property**: what the engine extracts is the host, and each walk pushes the same, wherever the URL
    stands in the arguments and whatever has been found before. -/
def SameHost (ext : Externals) (url : HttpUrl) : Prop :=
  extractDomain ext url.text = url.lowerHost ∧
  (∀ depth t, withinLimits depth t = true →
    extractTargetsInner ext depth (.string url.text) t =
      some (t.pushDomain (extractDomain ext url.text))) ∧
  ((extractResourceAction ext url.text).map Action.targetDomains =
    some [extractDomain ext url.text]) ∧
  (∀ depth t, withinLimits depth t = true →
    scanParamsForTargetsInner ext depth (.string url.text) t =
      some (t.pushDomain (extractDomain ext url.text)))

/-- The text up to the first `:`, `?` or `#`. -/
def cutText (cs : List Char) : List Char := beforeFirst '#' (beforeFirst '?' (beforeFirst ':' cs))

/-- **The condition.**  The text that follows the authority can be decoded; a userinfo has no colon, unless
    what stands before it is the host again; and no backslash follows the host directly, unless
    what stands behind an `@` of the tail is. -/
structure HostKept (ext : Externals) (url : HttpUrl) : Prop where
  mcpDecodes : (percentDecodeUtf8 url.mcpRest).isSome = true
  serverDecodes : (percentDecodeUtf8 url.serverRest).isSome = true
  userinfo : ∀ u ∈ url.userinfo, ':' ∈ u →
    ext.toLowercase (String.ofList (beforeFirst ':' u)) = url.lowerHost
  backslash : (∀ u ∈ url.userinfo, ':' ∉ u) → url.port = none → url.tail.head? = some '\\' →
    ∃ decoded ∈ percentDecodeUtf8 url.mcpRest, '@' ∈ cutText decoded ∧
      ext.toLowercase (String.ofList (afterLast '@' (cutText decoded))) = url.lowerHost

/-! ### The parts of a URL -/

namespace HttpUrl

variable (url : HttpUrl)

theorem not_mem_host {d : Char} (hd : isDomainChar d = false) : d ∉ url.host := fun hmem =>
  Bool.false_ne_true (hd.symm.trans (url.host_chars d hmem))

theorem not_mem_userinfo {d : Char} (hd : d ∈ userinfoStops) : ∀ u ∈ url.userinfo, d ∉ u :=
  fun u hu hmem => url.userinfo_plain u hu d hmem hd

theorem not_mem_portPart {d : Char} (hd : d.isDigit = false) (hcolon : d ≠ ':') : d ∉ url.portPart := by
  unfold portPart
  cases hport : url.port with
  | none => exact List.not_mem_nil
  | some p =>
    intro hmem
    rcases List.mem_cons.mp hmem with rfl | hmem
    · exact hcolon rfl
    · exact Bool.false_ne_true (hd.symm.trans (url.port_digits p hport d hmem))

theorem not_mem_hostPort {d : Char} (hd : isDomainChar d = false) (hcolon : d ≠ ':') :
    d ∉ url.host ++ url.portPart := by
  have hdigit : d.isDigit = false := by
    cases hdigit : d.isDigit with
    | false => rfl
    | true => simp [isDomainChar, isAsciiAlphanumeric, Char.isAlphanum, hdigit] at hd
  rw [List.mem_append, not_or]
  exact ⟨url.not_mem_host hd, url.not_mem_portPart hdigit hcolon⟩

theorem not_mem_authorityPart {d : Char} (hstop : d ∈ userinfoStops) (hat : d ≠ '@')
    (hd : isDomainChar d = false) (hcolon : d ≠ ':') : d ∉ url.authorityPart := by
  rw [authorityPart, List.mem_append, not_or]
  refine ⟨?_, url.not_mem_hostPort hd hcolon⟩
  unfold userinfoPart
  cases huser : url.userinfo with
  | none => exact List.not_mem_nil
  | some u =>
    intro hmem
    rcases List.mem_append.mp hmem with hmem | hmem
    · exact url.not_mem_userinfo hstop u huser hmem
    · exact hat (List.mem_singleton.mp hmem)

theorem percent_not_mem : '%' ∉ url.authorityPart :=
  url.not_mem_authorityPart (by decide) (by decide) (by decide) (by decide)

theorem slash_not_mem : '/' ∉ url.authorityPart :=
  url.not_mem_authorityPart (by decide) (by decide) (by decide) (by decide)

theorem isAuthority_authorityPart : IsAuthority url.authorityPart := by
  rintro c hc (rfl | rfl | rfl | rfl)
  · exact url.slash_not_mem hc
  · exact url.not_mem_authorityPart (by decide) (by decide) (by decide) (by decide) hc
  · exact url.not_mem_authorityPart (by decide) (by decide) (by decide) (by decide) hc
  · exact url.not_mem_authorityPart (by decide) (by decide) (by decide) (by decide) hc

/-- The `@` of the userinfo is the last one, unless there is one behind it. -/
theorem afterLast_userinfoPart (cs : List Char) :
    afterLast '@' (url.userinfoPart ++ cs) = afterLast '@' cs := by
  by_cases hat : '@' ∈ cs
  · exact afterLast_append_of_mem hat
  rw [afterLast_eq_self hat]
  unfold userinfoPart
  cases url.userinfo with
  | none => exact afterLast_eq_self hat
  | some u =>
    show afterLast '@' (u ++ ['@'] ++ _) = _
    rw [List.append_assoc]
    exact afterLast_append_cons hat

theorem afterLast_authorityPart : afterLast '@' url.authorityPart = url.host ++ url.portPart := by
  rw [authorityPart, afterLast_userinfoPart]
  exact afterLast_eq_self (url.not_mem_hostPort (by decide) (by decide))

/-- The letters of the scheme. -/
theorem scheme_letters : ∀ c ∈ url.scheme, c.toLower ∈ "https".toList := by
  intro c hc
  have hmem : c.toLower ∈ url.scheme.map Char.toLower := List.mem_map_of_mem hc
  rcases url.scheme_http with h | h
  · rw [h] at hmem
    exact List.mem_append_left ['s'] hmem
  · rw [h] at hmem
    exact hmem

theorem separator_not_infix_scheme : ¬ separator <:+: url.scheme := by
  intro hin
  have hcolon := url.scheme_letters ':' (hin.subset List.mem_cons_self)
  exact absurd hcolon (by decide)

theorem isAscii_host : IsAsciiText url.host := by
  intro c hc
  exact isAscii_of_isDomainChar (url.host_chars c hc)

end HttpUrl

/-! ### The engine -/

section Engine

variable (ext : Externals) (url : HttpUrl)

theorem toLowercase_host : ext.toLowercase (String.ofList url.host) = url.lowerHost := by
  rw [Externals.toLowercase, HttpUrl.lowerHost, toAsciiLowercase, String.toList_ofList,
    lowercaseChars_ascii _ _ _ url.isAscii_host]

theorem stripPort_hostPort : stripPort (url.host ++ url.portPart) = url.host := by
  have hbracket := url.not_mem_hostPort (d := ']') (by decide) (by decide)
  have hcolon := url.not_mem_host (d := ':') (by decide)
  rw [stripPort, if_neg (by simpa using hbracket)]
  unfold HttpUrl.portPart
  cases hport : url.port with
  | none =>
    show (if List.contains (url.host ++ []) ':' = true then _ else url.host ++ []) = _
    rw [List.append_nil, if_neg (by simpa using hcolon)]
  | some p =>
    have hdigits := url.port_digits p hport
    have hnot : ':' ∉ p := fun hmem => absurd (hdigits ':' hmem) (by decide)
    have hlast : afterLast ':' (url.host ++ ':' :: p) = p := afterLast_append_cons hnot
    show (if List.contains (url.host ++ ':' :: p) ':' = true then _ else _) = _
    rw [if_pos (by simp)]
    show (if (afterLast ':' (url.host ++ ':' :: p)).all Char.isDigit = true then
      (url.host ++ ':' :: p).take ((url.host ++ ':' :: p).length -
        (afterLast ':' (url.host ++ ':' :: p)).length - 1) else _) = _
    rw [hlast, if_pos (List.all_eq_true.mpr hdigits), List.take_left' (by simp; omega)]

/-- **The engine** extracts the host. -/
theorem extractDomain_url : extractDomain ext url.text = url.lowerHost := by
  have hraw : authority (backslashesToSlashes (withoutScheme url.text.toList)) = url.authorityPart := by
    rw [HttpUrl.text, String.toList_ofList, HttpUrl.chars, ← List.append_assoc]
    exact authority_of_scheme ⟨url.scheme, url.separator_not_infix_scheme, rfl⟩
      url.isAuthority_authorityPart url.tail_starts
  have hdecoded : percentDecodeUtf8 url.authorityPart = some url.authorityPart := by
    have happend := @percentDecodeUtf8_append _ [] url.percent_not_mem
    rw [List.append_nil] at happend
    rw [happend]
    show some (_ ++ []) = _
    rw [List.append_nil]
  have hkeep : ∀ d, isDomainChar d = false → d ≠ ':' → d ∉ url.host ++ url.portPart :=
    fun d hd hcolon => url.not_mem_hostPort hd hcolon
  have hslashes : backslashesToSlashes (url.host ++ url.portPart) = url.host ++ url.portPart := by
    exact backslashesToSlashes_eq_self (hkeep '\\' (by decide) (by decide))
  have hdot : (url.host.map Char.toLower).getLast? ≠ some '.' := by
    rw [List.getLast?_map]
    intro hlast
    obtain ⟨c, hc, hlower⟩ := Option.map_eq_some_iff.mp hlast
    have hdot : c = '.' := eq_of_toLower_eq (by decide) hlower
    exact url.host_dot (hdot ▸ hc)
  unfold extractDomain
  rw [hraw]
  simp only [hdecoded, url.afterLast_authorityPart, hslashes]
  rw [beforeFirst_eq_self (hkeep '/' (by decide) (by decide)),
    beforeFirst_eq_self (hkeep '?' (by decide) (by decide)),
    beforeFirst_eq_self (hkeep '#' (by decide) (by decide)), stripPort_hostPort, toLowercase_host,
    HttpUrl.lowerHost, toAsciiLowercase, String.toList_ofList, String.toList_ofList,
    trimEndMatches_eq_self hdot]

end Engine

/-! ### What the cuts leave -/

section Cuts

variable (ext : Externals) (url : HttpUrl)

/-- A colon in the userinfo is the first one. -/
theorem hostOf_userinfo {u : List Char} (hu : url.userinfo = some u) (hcolon : ':' ∈ u)
    (decoded : List Char) : hostOf (url.authorityPart ++ decoded) = beforeFirst ':' u := by
  have hcut : beforeFirst ':' (url.authorityPart ++ decoded) = beforeFirst ':' u := by
    have hmem : ':' ∈ u ++ ['@'] := List.mem_append_left _ hcolon
    rw [HttpUrl.authorityPart, HttpUrl.userinfoPart, hu, List.append_assoc]
    show beforeFirst ':' ((u ++ ['@']) ++ _) = _
    rw [beforeFirst_append_of_mem hmem, beforeFirst_append_of_mem hcolon]
  have hkeep : ∀ d ∈ userinfoStops, d ∉ beforeFirst ':' u := fun d hd hmem =>
    url.not_mem_userinfo hd u hu (beforeFirst_subset ':' u hmem)
  rw [hostOf, hcut, beforeFirst_eq_self (hkeep '?' (by decide)), beforeFirst_eq_self (hkeep '#' (by decide)),
    afterLast_eq_self (hkeep '@' (by decide))]

/-- Without one, userinfo and host pass the cuts. -/
theorem cutText_append (hcolon : ∀ u ∈ url.userinfo, ':' ∉ u) (rest : List Char) :
    cutText (url.userinfoPart ++ (url.host ++ rest)) = url.userinfoPart ++ (url.host ++ cutText rest) := by
  have hkeep : ∀ d, (d = ':' ∨ d ∈ userinfoStops) → d ≠ '@' → isDomainChar d = false →
      d ∉ url.userinfoPart ++ url.host := by
    intro d hd hat hhost
    rw [List.mem_append, not_or]
    refine ⟨?_, url.not_mem_host hhost⟩
    unfold HttpUrl.userinfoPart
    cases huser : url.userinfo with
    | none => exact List.not_mem_nil
    | some u =>
      intro hmem
      rcases List.mem_append.mp hmem with hmem | hmem
      · rcases hd with rfl | hd
        · exact hcolon u huser hmem
        · exact url.not_mem_userinfo hd u huser hmem
      · exact hat (List.mem_singleton.mp hmem)
  rw [cutText, ← List.append_assoc, beforeFirst_append (hkeep ':' (by decide) (by decide) (by decide)),
    beforeFirst_append (hkeep '?' (by decide) (by decide) (by decide)),
    beforeFirst_append (hkeep '#' (by decide) (by decide) (by decide)), List.append_assoc]
  rfl

theorem hostOf_plain (hcolon : ∀ u ∈ url.userinfo, ':' ∉ u) (decoded : List Char) :
    hostOf (url.authorityPart ++ decoded) =
      afterLast '@' (url.host ++ cutText (url.portPart ++ decoded)) := by
  show afterLast '@' (cutText _) = _
  rw [HttpUrl.authorityPart, List.append_assoc, List.append_assoc, cutText_append url hcolon,
    url.afterLast_userinfoPart]

/-- A port, or a tail that begins with `?` or `#`, ends the host. -/
theorem hostOf_ended (hcolon : ∀ u ∈ url.userinfo, ':' ∉ u) {decoded : List Char}
    (hend : url.port ≠ none ∨ ∀ c ∈ decoded.head?, c = '?' ∨ c = '#') :
    hostOf (url.authorityPart ++ decoded) = url.host := by
  have hcut : cutText (url.portPart ++ decoded) = [] := by
    unfold HttpUrl.portPart
    cases hport : url.port with
    | some p => rfl
    | none =>
      have hstart := hend.resolve_left fun hne => hne hport
      show cutText decoded = []
      cases decoded with
      | nil => rfl
      | cons c decoded => rcases hstart c rfl with rfl | rfl <;> simp [cutText, beforeFirst_cons_of_ne]
  rw [hostOf_plain url hcolon, hcut, List.append_nil]
  exact afterLast_eq_self (url.not_mem_host (by decide))

/-- A backslash does not. -/
theorem hostOf_backslash (hcolon : ∀ u ∈ url.userinfo, ':' ∉ u) (hport : url.port = none)
    (decoded : List Char) :
    hostOf (url.authorityPart ++ decoded) =
      if '@' ∈ cutText decoded then afterLast '@' (cutText decoded) else url.host ++ cutText decoded := by
  have hnone : url.portPart = [] := by rw [HttpUrl.portPart, hport]; rfl
  rw [hostOf_plain url hcolon, hnone, List.nil_append]
  split
  · rename_i hat
    exact afterLast_append_of_mem hat
  · rename_i hat
    refine afterLast_eq_self ?_
    rw [List.mem_append, not_or]
    exact ⟨url.not_mem_host (by decide), hat⟩

theorem lowercaseChars_append {cs : List Char} (hcs : IsAsciiText cs)
    (nonAscii : List Char → Char → List Char → List Char) (before rest : List Char) :
    ∃ lowered, lowercaseChars nonAscii before (cs ++ rest) = cs.map Char.toLower ++ lowered ∧
      ∀ c ∈ rest.head?, isAscii c = true → lowered ≠ [] := by
  induction cs generalizing before with
  | nil =>
    refine ⟨lowercaseChars nonAscii before rest, rfl, fun c hc hascii => ?_⟩
    cases rest with
    | nil => cases hc
    | cons d rest =>
      cases hc
      rw [lowercaseChars, if_pos hascii]
      exact List.cons_ne_nil _ _
  | cons c cs ih =>
    obtain ⟨lowered, hlowered, hne⟩ := ih (fun d hd => hcs d (List.mem_cons_of_mem c hd)) (c :: before)
    refine ⟨lowered, ?_, hne⟩
    rw [List.cons_append, lowercaseChars, if_pos (hcs c List.mem_cons_self), hlowered]
    rfl

/-- The host with a backslash behind it is not the host. -/
theorem toLowercase_host_backslash (rest : List Char) :
    ext.toLowercase (String.ofList (url.host ++ '\\' :: rest)) ≠ url.lowerHost := by
  obtain ⟨lowered, hlowered, hne⟩ :=
    lowercaseChars_append url.isAscii_host ext.lowerNonAscii [] ('\\' :: rest)
  rw [Externals.toLowercase, String.toList_ofList, hlowered, HttpUrl.lowerHost, toAsciiLowercase,
    String.toList_ofList]
  intro heq
  exact hne '\\' rfl (by decide) (List.append_right_eq_self.mp (String.ofList_injective heq))

/-- What a decoded tail must be like. -/
def Kept (decoded : List Char) : Prop :=
  (∀ u ∈ url.userinfo, ':' ∈ u →
    ext.toLowercase (String.ofList (beforeFirst ':' u)) = url.lowerHost) ∧
  ((∀ u ∈ url.userinfo, ':' ∉ u) → url.port = none → decoded.head? = some '\\' →
    '@' ∈ cutText decoded ∧
      ext.toLowercase (String.ofList (afterLast '@' (cutText decoded))) = url.lowerHost)

/-- **The cuts** leave the host in front of such a tail, and of no other one. -/
theorem hostOf_cases {decoded : List Char} (hstart : ∀ c ∈ decoded.head?, c = '?' ∨ c = '#' ∨ c = '\\') :
    ext.toLowercase (String.ofList (hostOf (url.authorityPart ++ decoded))) = url.lowerHost ↔
      Kept ext url decoded := by
  by_cases hcolon : ∀ u ∈ url.userinfo, ':' ∉ u
  · have hno : ∀ u ∈ url.userinfo, ':' ∈ u →
        ext.toLowercase (String.ofList (beforeFirst ':' u)) = url.lowerHost :=
      fun u hu hmem => absurd hmem (hcolon u hu)
    by_cases hopen : url.port = none ∧ decoded.head? = some '\\'
    · obtain ⟨hport, hhead⟩ := hopen
      obtain ⟨rest, rfl⟩ : ∃ rest, decoded = '\\' :: rest := by
        cases decoded with
        | nil => cases hhead
        | cons c rest => exact ⟨rest, by rw [Option.some.inj hhead]⟩
      have hcut : cutText ('\\' :: rest) = '\\' :: cutText rest := by
        simp [cutText, beforeFirst_cons_of_ne]
      rw [hostOf_backslash url hcolon hport]
      split
      · rename_i hat
        exact ⟨fun heq => ⟨hno, fun _ _ _ => ⟨hat, heq⟩⟩, fun h => (h.2 hcolon hport hhead).2⟩
      · rename_i hat
        rw [hcut]
        refine ⟨fun heq => absurd heq (toLowercase_host_backslash ext url _), fun h => ?_⟩
        exact absurd (h.2 hcolon hport hhead).1 hat
    · have hend : url.port ≠ none ∨ ∀ c ∈ decoded.head?, c = '?' ∨ c = '#' := by
        rcases not_and_or.mp hopen with hport | hhead
        · exact .inl hport
        · refine .inr fun c hc => ?_
          rcases hstart c hc with h | h | rfl
          · exact .inl h
          · exact .inr h
          · exact absurd hc hhead
      rw [hostOf_ended url hcolon hend, toLowercase_host]
      refine ⟨fun _ => ⟨hno, fun _ hport hhead => ?_⟩, fun _ => rfl⟩
      exact absurd ⟨hport, hhead⟩ hopen
  · obtain ⟨u, hu, hmem⟩ : ∃ u, url.userinfo = some u ∧ ':' ∈ u := by
      by_contra hnone
      exact hcolon fun u hu hmem => hnone ⟨u, hu, hmem⟩
    rw [hostOf_userinfo url hu hmem]
    constructor
    · intro heq
      refine ⟨fun v hv _ => ?_, fun hnot => absurd hmem (hnot u hu)⟩
      obtain rfl : u = v := Option.some.inj (hu.symm.trans hv)
      exact heq
    · intro h
      exact h.1 u hu hmem

end Cuts

/-! ### The walks -/

section Walks

variable (ext : Externals) (url : HttpUrl)

/-- Both walks: decode what follows the authority, cut, and push what is left. -/
def walkHost (rest : List Char) (t : Targets) : Targets :=
  match percentDecodeUtf8 rest with
  | some decoded =>
    let host := hostOf (url.authorityPart ++ decoded)
    if host.isEmpty then t else t.pushDomain (ext.toLowercase (String.ofList host))
  | none => t

theorem lowerHost_ne : url.lowerHost ≠ ext.toLowercase (String.ofList []) := by
  intro heq
  have hmap := String.ofList_injective heq
  rw [String.toList_ofList] at hmap
  exact url.host_ne (List.map_eq_nil_iff.mp hmap)

theorem walkHost_eq_iff (rest : List Char) (t : Targets) :
    walkHost ext url rest t = t.pushDomain url.lowerHost ↔
      ∃ decoded ∈ percentDecodeUtf8 rest,
        ext.toLowercase (String.ofList (hostOf (url.authorityPart ++ decoded))) = url.lowerHost := by
  have hpush : ∀ d, t.pushDomain d = t.pushDomain url.lowerHost ↔ d = url.lowerHost := by
    intro d
    refine ⟨fun heq => ?_, fun heq => by rw [heq]⟩
    have hdomains := List.append_cancel_left (congrArg Targets.domains heq)
    exact List.singleton_inj.mp hdomains
  have hkeep : t ≠ t.pushDomain url.lowerHost := by
    intro heq
    have hlen := congrArg (fun t => t.domains.length) heq
    simp [Targets.pushDomain] at hlen
  unfold walkHost
  cases hdecoded : percentDecodeUtf8 rest with
  | none => simp [hkeep]
  | some decoded =>
    simp only [Option.mem_some_iff, exists_eq_left']
    split
    · rename_i hempty
      rw [List.isEmpty_iff.mp hempty]
      exact ⟨fun heq => absurd heq hkeep, fun heq => absurd heq.symm (lowerHost_ne ext url)⟩
    · exact hpush _

theorem percentDecodeUtf8_authorityPart (rest : List Char) :
    percentDecodeUtf8 (url.authorityPart ++ rest) =
      (percentDecodeUtf8 rest).map (url.authorityPart ++ ·) :=
  percentDecodeUtf8_append url.percent_not_mem

theorem afterScheme_chars : afterScheme url.chars = some (url.authorityPart ++ url.tail) :=
  afterScheme_append url.separator_not_infix_scheme

theorem addHttpTarget_url (t : Targets) :
    addHttpTarget ext url.chars t = walkHost ext url url.mcpRest t := by
  unfold addHttpTarget walkHost
  rw [afterScheme_chars, Option.bind_some, beforeFirst_append url.slash_not_mem]
  show (match percentDecodeUtf8 (url.authorityPart ++ url.mcpRest) with
    | some decoded => _
    | none => _) = _
  rw [percentDecodeUtf8_authorityPart]
  cases percentDecodeUtf8 url.mcpRest with
  | none => rfl
  | some decoded => rfl

/-- The scheme in lower case. -/
def lowerScheme : List Char := url.scheme.map Char.toLower

theorem lowerScheme_cases : lowerScheme url = "http".toList ∨ lowerScheme url = "https".toList :=
  url.scheme_http

theorem isAscii_scheme : IsAsciiText url.scheme := by
  intro c hc
  have hlower := url.scheme_letters c hc
  rcases toLower_eq_or_letter c with heq | ⟨hletter, -⟩
  · have hascii : "https".toList.all isAscii = true := by decide
    rw [heq] at hlower
    exact List.all_eq_true.mp hascii c hlower
  · exact forall_letter (P := fun c => isAscii c = true) (by decide) hletter

theorem toLowercase_text : ∃ lowered,
    (ext.toLowercase url.text).toList = lowerScheme url ++ (separator ++ lowered) := by
  have hseparator : separator.all isAscii = true := by decide
  have hascii : IsAsciiText (url.scheme ++ separator) := by
    intro c hc
    rcases List.mem_append.mp hc with hc | hc
    · exact isAscii_scheme url c hc
    · exact List.all_eq_true.mp hseparator c hc
  obtain ⟨lowered, hlowered, -⟩ :=
    lowercaseChars_append hascii ext.lowerNonAscii [] (url.authorityPart ++ url.tail)
  refine ⟨lowered, ?_⟩
  rw [Externals.toLowercase, String.toList_ofList, HttpUrl.text, String.toList_ofList, HttpUrl.chars,
    ← List.append_assoc, hlowered, List.map_append, List.append_assoc]
  rfl

theorem scanUrl_url (t : Targets) :
    scanUrl ext url.chars (lowerScheme url) t = walkHost ext url url.serverRest t := by
  have hdomain : isDomainScheme (lowerScheme url) = true := by
    rcases lowerScheme_cases url with h | h
    · rw [h]
      decide
    · rw [h]
      decide
  have hbytes : (String.ofList (lowerScheme url)).utf8ByteSize + 3 =
      String.utf8Len (url.scheme ++ separator) := by
    have hsame : SameCaseless (lowerScheme url) url.scheme := by
      rw [SameCaseless, lowerScheme, List.map_map]
      exact List.map_congr_left fun c hc => toLower_toLower (isAscii_scheme url c hc)
    rw [String.utf8ByteSize_ofList, hsame.utf8Len_eq, String.utf8Len_append]
    rfl
  have hsuffix : byteSuffix url.chars ((String.ofList (lowerScheme url)).utf8ByteSize + 3) =
      some (url.authorityPart ++ url.tail) := by
    rw [hbytes, HttpUrl.chars, ← List.append_assoc]
    exact byteSuffix_append _ _
  have hslashes : backslashesToSlashes (url.authorityPart ++ url.tail) =
      url.authorityPart ++ backslashesToSlashes url.tail := by
    have hkept := backslashesToSlashes_eq_self
      (url.not_mem_authorityPart (d := '\\') (by decide) (by decide) (by decide) (by decide))
    rw [backslashesToSlashes, List.map_append]
    exact congrArg (· ++ _) hkept
  unfold scanUrl walkHost
  rw [hdomain, hsuffix, Option.bind_some, hslashes, beforeFirst_append url.slash_not_mem]
  show (match percentDecodeUtf8 (url.authorityPart ++ url.serverRest) with
    | some decoded => _
    | none => _) = _
  rw [percentDecodeUtf8_authorityPart]
  cases percentDecodeUtf8 url.serverRest with
  | none => rfl
  | some decoded => rfl

/-- Neither walk takes the URL for a file. -/
theorem lower_text (lowered : List Char) :
    stripPrefix "file://".toList (lowerScheme url ++ (separator ++ lowered)) = none ∧
      ("http://".toList.isPrefixOf (lowerScheme url ++ (separator ++ lowered)) ||
        "https://".toList.isPrefixOf (lowerScheme url ++ (separator ++ lowered))) = true ∧
      findScheme (lowerScheme url ++ (separator ++ lowered)) = some (lowerScheme url) := by
  have hscheme : ¬ separator <:+: lowerScheme url := by
    rcases lowerScheme_cases url with h | h
    · rw [h]
      decide
    · rw [h]
      decide
  have hfind : findScheme (lowerScheme url ++ (separator ++ lowered)) = some (lowerScheme url) := by
    rw [findScheme, afterScheme_append hscheme]
    have hlen : (lowerScheme url ++ (separator ++ lowered)).length - lowered.length - 3 =
        (lowerScheme url).length := by
      simp only [List.length_append, separator, List.length_cons, List.length_nil]
      omega
    rw [Option.map_some, hlen, List.take_left]
  refine ⟨?_, ?_, hfind⟩
  · rcases lowerScheme_cases url with h | h
    · rw [h]
      rfl
    · rw [h]
      rfl
  · rcases lowerScheme_cases url with h | h
    · rw [h]
      rfl
    · rw [h]
      rfl

theorem extractTargetsInner_url {depth : Nat} {t : Targets} (h : withinLimits depth t = true) :
    extractTargetsInner ext depth (.string url.text) t = some (walkHost ext url url.mcpRest t) := by
  obtain ⟨lowered, hlowered⟩ := toLowercase_text ext url
  obtain ⟨hfile, hhttp, -⟩ := lower_text url lowered
  rw [extractTargetsInner, if_pos h]
  unfold Extractor.extractFromString
  dsimp only
  rw [hlowered, hfile, hhttp, if_pos rfl, ← addHttpTarget_url, HttpUrl.text, String.toList_ofList]

theorem extractResourceAction_url :
    (extractResourceAction ext url.text).map Action.targetDomains =
      some (walkHost ext url url.mcpRest ⟨[], []⟩).domains := by
  obtain ⟨lowered, hlowered⟩ := toLowercase_text ext url
  obtain ⟨hfile, hhttp, -⟩ := lower_text url lowered
  unfold extractResourceAction
  dsimp only
  rw [hlowered, hfile, hhttp, if_pos rfl, ← addHttpTarget_url, HttpUrl.text, String.toList_ofList]
  rfl

theorem scanParamsForTargetsInner_url {depth : Nat} {t : Targets} (h : withinLimits depth t = true) :
    scanParamsForTargetsInner ext depth (.string url.text) t =
      some (walkHost ext url url.serverRest t) := by
  obtain ⟨lowered, hlowered⟩ := toLowercase_text ext url
  obtain ⟨hfile, -, hfind⟩ := lower_text url lowered
  rw [scanParamsForTargetsInner, if_pos h]
  unfold scanString
  dsimp only
  rw [hlowered, hfile, hfind, ← scanUrl_url, HttpUrl.text, String.toList_ofList]

/-- The first character of what follows the authority is kept by the decoding. -/
theorem head_decoded {tail decoded : List Char} (htail : IsTail tail)
    (hdecoded : percentDecodeUtf8 (beforeFirst '/' tail) = some decoded) :
    (∀ c ∈ decoded.head?, c = '?' ∨ c = '#' ∨ c = '\\') ∧
      ∀ c, c ≠ '/' → (decoded.head? = some c ↔ tail.head? = some c) := by
  cases tail with
  | nil =>
    cases hdecoded
    exact ⟨fun c hc => (by cases hc), fun c _ => Iff.rfl⟩
  | cons d tail =>
    by_cases hslash : d = '/'
    · subst hslash
      rw [beforeFirst_cons_self] at hdecoded
      cases hdecoded
      refine ⟨fun c hc => (by cases hc), fun c hne => ⟨fun hc => (by cases hc), fun hc => ?_⟩⟩
      exact absurd (Option.some.inj hc).symm hne
    · have hother : d = '?' ∨ d = '#' ∨ d = '\\' := (htail d rfl).resolve_left hslash
      have hpercent : '%' ∉ [d] := by
        rcases hother with rfl | rfl | rfl <;> decide
      rw [beforeFirst_cons_of_ne hslash, ← List.singleton_append, percentDecodeUtf8_append hpercent] at hdecoded
      obtain ⟨rest, -, rfl⟩ := Option.map_eq_some_iff.mp hdecoded
      refine ⟨fun c hc => ?_, fun c _ => Iff.rfl⟩
      cases hc
      exact hother

theorem isTail_backslashesToSlashes {tail : List Char} (h : IsTail tail) :
    IsTail (backslashesToSlashes tail) ∧ (backslashesToSlashes tail).head? ≠ some '\\' := by
  cases tail with
  | nil => exact ⟨h, by decide⟩
  | cons d tail =>
    rcases h d rfl with rfl | rfl | rfl | rfl
    all_goals
      refine ⟨fun c hc => ?_, by simp [backslashesToSlashes]⟩
      cases hc
      simp [IsTerminator]

end Walks

/-- **The proxy, the server and the engine see the same host** exactly if the host is kept. -/
theorem same_host_iff (ext : Externals) (url : HttpUrl) : SameHost ext url ↔ HostKept ext url := by
  have hmcp : ∀ {decoded}, percentDecodeUtf8 url.mcpRest = some decoded →
      (ext.toLowercase (String.ofList (hostOf (url.authorityPart ++ decoded))) = url.lowerHost ↔
        Kept ext url decoded) := fun hdecoded =>
    hostOf_cases ext url (head_decoded url.tail_starts hdecoded).1
  have hserver : ∀ {decoded}, percentDecodeUtf8 url.serverRest = some decoded →
      decoded.head? ≠ some '\\' ∧
      (ext.toLowercase (String.ofList (hostOf (url.authorityPart ++ decoded))) = url.lowerHost ↔
        Kept ext url decoded) := by
    intro decoded hdecoded
    obtain ⟨htail, hne⟩ := isTail_backslashesToSlashes url.tail_starts
    obtain ⟨hstart, hhead⟩ := head_decoded htail hdecoded
    exact ⟨fun h => hne ((hhead '\\' (by decide)).mp h), hostOf_cases ext url hstart⟩
  constructor
  · rintro ⟨-, harguments, -, hscan⟩
    have hlimits : withinLimits 0 ⟨[], []⟩ = true := by decide
    have hmcpHost := harguments 0 ⟨[], []⟩ hlimits
    have hserverHost := hscan 0 ⟨[], []⟩ hlimits
    rw [extractTargetsInner_url ext url hlimits, extractDomain_url] at hmcpHost
    rw [scanParamsForTargetsInner_url ext url hlimits, extractDomain_url] at hserverHost
    obtain ⟨decoded, hdecoded, hhost⟩ := (walkHost_eq_iff ext url _ _).mp (Option.some.inj hmcpHost)
    obtain ⟨decoded', hdecoded', -⟩ := (walkHost_eq_iff ext url _ _).mp (Option.some.inj hserverHost)
    obtain ⟨huser, hback⟩ := (hmcp hdecoded).mp hhost
    refine ⟨Option.isSome_of_mem hdecoded, Option.isSome_of_mem hdecoded', huser, ?_⟩
    intro hcolon hport htail
    have hhead := ((head_decoded url.tail_starts hdecoded).2 '\\' (by decide)).mpr htail
    exact ⟨decoded, hdecoded, hback hcolon hport hhead⟩
  · intro h
    obtain ⟨decoded, hdecoded⟩ := Option.isSome_iff_exists.mp h.mcpDecodes
    obtain ⟨decoded', hdecoded'⟩ := Option.isSome_iff_exists.mp h.serverDecodes
    have hwalk : ∀ t, walkHost ext url url.mcpRest t = t.pushDomain url.lowerHost := by
      refine fun t => (walkHost_eq_iff ext url _ t).mpr ⟨decoded, hdecoded, (hmcp hdecoded).mpr ?_⟩
      refine ⟨h.userinfo, fun hcolon hport hhead => ?_⟩
      have htail := ((head_decoded url.tail_starts hdecoded).2 '\\' (by decide)).mp hhead
      obtain ⟨decoded₂, hdecoded₂, hkept⟩ := h.backslash hcolon hport htail
      obtain rfl : decoded = decoded₂ := Option.some.inj (hdecoded.symm.trans hdecoded₂)
      exact hkept
    have hwalk' : ∀ t, walkHost ext url url.serverRest t = t.pushDomain url.lowerHost := by
      refine fun t => (walkHost_eq_iff ext url _ t).mpr ⟨decoded', hdecoded', ?_⟩
      refine (hserver hdecoded').2.mpr ⟨h.userinfo, fun _ _ hhead => ?_⟩
      exact absurd hhead (hserver hdecoded').1
    refine ⟨extractDomain_url ext url, ?_, ?_, ?_⟩
    · intro depth t hlimits
      rw [extractTargetsInner_url ext url hlimits, extractDomain_url, hwalk]
    · rw [extractResourceAction_url, extractDomain_url, hwalk]
      rfl
    · intro depth t hlimits
      rw [scanParamsForTargetsInner_url ext url hlimits, extractDomain_url, hwalk']

/-! ### A password -/

/-- A user without a password, a port, and a backslash behind it. -/
def userUrl : HttpUrl where
  scheme := "HTTPS".toList
  userinfo := some "user".toList
  host := "Example.com".toList
  port := some "8080".toList
  tail := "\\x@y".toList
  scheme_http := by decide
  userinfo_plain _ hu := Option.some.inj hu ▸ by simp [userinfoStops]
  host_ne := by decide
  host_chars := List.all_eq_true.mp (by decide)
  host_dot := by decide
  port_digits _ hp := Option.some.inj hp ▸ List.all_eq_true.mp (by decide)
  tail_starts := by decide

/-- All three see `example.com`. -/
theorem same_host_user : userUrl.text = "HTTPS://user@Example.com:8080\\x@y" ∧
    userUrl.lowerHost = "example.com" ∧ SameHost plainExternals userUrl := by
  refine ⟨by decide +kernel, by decide +kernel, (same_host_iff plainExternals userUrl).mpr ?_⟩
  refine ⟨by decide +kernel, by decide +kernel, ?_, ?_⟩
  · intro u hu hcolon
    cases hu
    exact absurd hcolon (by decide)
  · intro _ hport
    cases hport

/-- A user and a password. -/
def passwordUrl : HttpUrl where
  scheme := "http".toList
  userinfo := some "safe.com:x".toList
  host := "evil.com".toList
  port := none
  tail := "/".toList
  scheme_http := by decide
  userinfo_plain _ hu := Option.some.inj hu ▸ by simp [userinfoStops]
  host_ne := by decide
  host_chars := List.all_eq_true.mp (by decide)
  host_dot := by decide
  port_digits _ hp := by cases hp
  tail_starts := by decide

/-- **A password hides the host**: the engine extracts `evil.com`, the two walks push `safe.com`. -/
theorem password_hides_host :
    passwordUrl.text = "http://safe.com:x@evil.com/" ∧
    extractDomain plainExternals passwordUrl.text = "evil.com" ∧
    extractTargetsInner plainExternals 0 (.string passwordUrl.text) ⟨[], []⟩ = some ⟨[], ["safe.com"]⟩ ∧
    scanParamsForTargetsInner plainExternals 0 (.string passwordUrl.text) ⟨[], []⟩ =
      some ⟨[], ["safe.com"]⟩ ∧
    ¬ SameHost plainExternals passwordUrl := by
  have hengine : extractDomain plainExternals passwordUrl.text = "evil.com" := by decide +kernel
  have hmcp : extractTargetsInner plainExternals 0 (.string passwordUrl.text) ⟨[], []⟩ =
      some ⟨[], ["safe.com"]⟩ := by decide +kernel
  have hserver : scanParamsForTargetsInner plainExternals 0 (.string passwordUrl.text) ⟨[], []⟩ =
      some ⟨[], ["safe.com"]⟩ := by decide +kernel
  refine ⟨by decide +kernel, hengine, hmcp, hserver, fun hsame => ?_⟩
  have hpushed := hsame.2.1 0 ⟨[], []⟩ (by decide)
  rw [hmcp, hengine] at hpushed
  exact absurd hpushed (by decide)

end Vellaveto.Server
