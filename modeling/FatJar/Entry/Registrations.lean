import FatJar.Text.Blank
import FatJar.Text.Lines
import FatJar.Text.Utf8

namespace FatJar.Registrations

def provider (line : List Char) : List Char :=
  trim (upTo '#' line)

def providers (payload : Bytes) : List (List Char) :=
  (((Utf8.decodeLossy payload).splitOn '\n').map provider).filter (!·.isEmpty)

def render (names : List (List Char)) : Bytes :=
  Utf8.encode (names.flatMap fun name => name ++ ['\n'])

def merge (payloads : List Bytes) : Bytes :=
  render (payloads.flatMap providers).eraseDups

end FatJar.Registrations
