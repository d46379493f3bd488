import Mathlib.Data.Nat.Basic

/-! # Domain names and applications

Names are byte strings, compared in lower case without a trailing dot. The
application of a name is found in a table of registered domains.
-/

namespace DpiEngine

abbrev Name := List UInt8

def ascii (s : String) : Name := s.toList.map fun c => .ofNat c.toNat

def toLower (c : UInt8) : UInt8 := if 0x41 ≤ c ∧ c ≤ 0x5A then c + 0x20 else c

section Lower

theorem toLower_cases (c : UInt8) :
    ¬ (0x41 ≤ c.toNat ∧ c.toNat ≤ 0x5A) ∧ toLower c = c ∨
      0x41 ≤ c.toNat ∧ c.toNat ≤ 0x5A ∧ (toLower c).toNat = c.toNat + 0x20 := by
  rw [toLower]
  split_ifs with h
  · rw [UInt8.le_iff_toNat_le, UInt8.le_iff_toNat_le] at h
    refine .inr ⟨h.1, h.2, ?_⟩
    rw [UInt8.toNat_add]
    have h2 : c.toNat ≤ 0x5A := h.2
    exact Nat.mod_eq_of_lt (by simp; omega)
  · rw [UInt8.le_iff_toNat_le, UInt8.le_iff_toNat_le] at h
    exact .inl ⟨h, rfl⟩

theorem toLower_toLower (c : UInt8) : toLower (toLower c) = toLower c := by
  rcases toLower_cases (toLower c) with ⟨-, h⟩ | ⟨hlow, hhigh, -⟩
  · exact h
  · rcases toLower_cases c with ⟨h, heq⟩ | ⟨h, -, heq⟩
    · rw [heq] at hlow hhigh
      exact absurd ⟨hlow, hhigh⟩ h
    · omega

theorem toLower_eq_iff {c b : UInt8} (hb : ¬ (0x41 ≤ b.toNat ∧ b.toNat ≤ 0x5A))
    (hb' : ¬ (0x61 ≤ b.toNat ∧ b.toNat ≤ 0x7A)) : toLower c = b ↔ c = b := by
  rcases toLower_cases c with ⟨-, heq⟩ | ⟨hlow, hhigh, heq⟩
  · rw [heq]
  · refine iff_of_false ?_ ?_
    · rintro rfl
      exact hb' (by omega)
    · rintro rfl
      exact hb ⟨hlow, hhigh⟩

theorem toLower_eq_dot {c : UInt8} : toLower c = 0x2E ↔ c = 0x2E :=
  toLower_eq_iff (by decide) (by decide)

theorem toLower_eq_star {c : UInt8} : toLower c = 0x2A ↔ c = 0x2A :=
  toLower_eq_iff (by decide) (by decide)

end Lower

def dropTrailingDot (s : Name) : Name :=
  if s.getLast? = some 0x2E then s.dropLast else s

def normalizeDomain (s : Name) : Name := dropTrailingDot (s.map toLower)

def isDomainOrSubdomain (host apex : Name) : Bool :=
  if host.isEmpty || apex.isEmpty then false
  else if host = apex then true
  else if host.length ≤ apex.length then false
  else
    let dotPos := host.length - apex.length - 1
    host[dotPos]? = some 0x2E && host.drop (dotPos + 1) = apex

inductive AppType
  | unknown | http | https | dns | tls | quic | google | facebook | youtube | twitter | instagram
  | netflix | amazon | microsoft | apple | whatsapp | telegram | tiktok | spotify | zoom | discord
  | github | cloudflare
  deriving DecidableEq, Repr

def appTypeToString : AppType → String
  | .unknown => "Unknown"
  | .http => "HTTP"
  | .https => "HTTPS"
  | .dns => "DNS"
  | .tls => "TLS"
  | .quic => "QUIC"
  | .google => "Google"
  | .facebook => "Facebook"
  | .youtube => "YouTube"
  | .twitter => "Twitter/X"
  | .instagram => "Instagram"
  | .netflix => "Netflix"
  | .amazon => "Amazon"
  | .microsoft => "Microsoft"
  | .apple => "Apple"
  | .whatsapp => "WhatsApp"
  | .telegram => "Telegram"
  | .tiktok => "TikTok"
  | .spotify => "Spotify"
  | .zoom => "Zoom"
  | .discord => "Discord"
  | .github => "GitHub"
  | .cloudflare => "Cloudflare"

/-- The registered domains in the order in which `sniToAppType` tries them. -/
def appDomains : List (List String × AppType) := [
  (["youtube.com", "ytimg.com", "youtu.be", "yt3.ggpht.com"], .youtube),
  (["instagram.com", "cdninstagram.com"], .instagram),
  (["whatsapp.com", "whatsapp.net", "wa.me"], .whatsapp),
  (["facebook.com", "fbcdn.net", "fb.com", "fbsbx.com", "meta.com"], .facebook),
  (["google.com", "googleapis.com", "gstatic.com", "ggpht.com", "gvt1.com",
    "googleusercontent.com"], .google),
  (["twitter.com", "twimg.com", "x.com", "t.co"], .twitter),
  (["netflix.com", "nflxvideo.net", "nflximg.net"], .netflix),
  (["amazon.com", "amazon.co.uk", "amazon.de", "amazonaws.com", "cloudfront.net",
    "aws.amazon.com"], .amazon),
  (["microsoft.com", "msn.com", "live.com", "outlook.com", "office.com", "office365.com",
    "azure.com", "bing.com", "windows.com", "microsoftonline.com"], .microsoft),
  (["apple.com", "icloud.com", "mzstatic.com", "itunes.apple.com"], .apple),
  (["telegram.org", "telegram.me", "t.me"], .telegram),
  (["tiktok.com", "tiktokcdn.com", "musical.ly", "bytedance.com"], .tiktok),
  (["spotify.com", "scdn.co"], .spotify),
  (["zoom.us", "zoom.com", "zoomgov.com"], .zoom),
  (["discord.com", "discord.gg", "discordapp.com"], .discord),
  (["github.com", "githubusercontent.com", "github.io"], .github),
  (["cloudflare.com", "cloudflare.net", "1.1.1.1", "workers.dev", "pages.dev"], .cloudflare)]

def sniToAppType (sni : Name) : AppType :=
  if sni.isEmpty then .unknown
  else
    let h := normalizeDomain sni
    if h.isEmpty then .unknown
    else
      match appDomains.find? fun row =>
          row.1.any fun apex => isDomainOrSubdomain h (ascii apex) with
      | some row => row.2
      | none => .https

end DpiEngine
