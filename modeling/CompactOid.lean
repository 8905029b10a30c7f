import CompactOid.Bytes.Base128.Words
import CompactOid.Bytes.Buffer
import CompactOid.Bytes.Program
import CompactOid.PrefixMap.Filling
import CompactOid.PrefixMap.Tally
import CompactOid.Publication
import CompactOid.Schema.Column
import CompactOid.Schema.WellKnown
import CompactOid.Proofs.Reserved
import CompactOid.Proofs.Reference
import CompactOid.Proofs.Bytes.Base128
import CompactOid.Proofs.Oid.Dotted
import CompactOid.Proofs.Oid.Ber
import CompactOid.Proofs.PrefixMap.Reading
import CompactOid.Proofs.Table.Coherence
import CompactOid.Proofs.Table.Growth
import CompactOid.Proofs.Table.Saving
import CompactOid.Proofs.View.Lookup
import CompactOid.Proofs.View.Assignment
import CompactOid.Proofs.View.Codec
import CompactOid.Proofs.PrefixMap.Framing
import CompactOid.Proofs.PrefixMap.Canonical
import CompactOid.Proofs.Table.Reached
import CompactOid.Proofs.Oid.Canonical
import CompactOid.Proofs.PrefixMap.Integrity
import CompactOid.Proofs.Table.Extension
import CompactOid.Proofs.View.Persistence
import CompactOid.Proofs.Table.Loading
import CompactOid.Proofs.View.Flat
import CompactOid.Proofs.PrefixMap.Trailing
import CompactOid.Proofs.Table.Remarks
import CompactOid.Proofs.View.Agreement
import CompactOid.Proofs.Publication.Histories
import CompactOid.Proofs.Schema.Column
import CompactOid.Proofs.Table.CodeSpace
import CompactOid.Proofs.Bytes.Group
import CompactOid.Proofs.Oid.Groups
import CompactOid.Proofs.Oid.Tree
import CompactOid.Proofs.PrefixMap.Misfits
import CompactOid.Proofs.Table.Repeats
import CompactOid.Proofs.View.Expansion
import CompactOid.Proofs.Bytes.Program
import CompactOid.Proofs.Bytes.Access
import CompactOid.Proofs.Publication.Reporting
import CompactOid.Proofs.Bytes.Words
import CompactOid.Proofs.PrefixMap.Tally
