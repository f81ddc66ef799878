import Uboot.Bam.AddDesc
import Uboot.Bam.Basic
import Uboot.Bootm.Basic
import Uboot.Bootm.MemmoveWd
import Uboot.Bootm.Theorems
import Uboot.Bootp.Basic
import Uboot.Bootp.Theorems
import Uboot.Cli.Editor
import Uboot.Cli.History
import Uboot.Cli.Line
import Uboot.Cli.ReadLine
import Uboot.Cli.Recall
import Uboot.Cli.Refinement
import Uboot.Cli.Theorems
import Uboot.CmdNand.Basic
import Uboot.CmdNand.Target
import Uboot.Crashdump.Basic
import Uboot.Crashdump.Theorems
import Uboot.Crashdump.Tlv
import Uboot.Crc32.Basic
import Uboot.Defrag.Basic
import Uboot.Defrag.Checked
import Uboot.Defrag.HoleList
import Uboot.Defrag.Lemmas
import Uboot.Defrag.Safety
import Uboot.Defrag.Theorems
import Uboot.Dns.Basic
import Uboot.Dns.Message
import Uboot.Dns.Theorems
import Uboot.Dos.Basic
import Uboot.Dos.Numbers
import Uboot.Dos.Termination
import Uboot.Edma.Accounting
import Uboot.Edma.Basic
import Uboot.Edma.ReceiveRing
import Uboot.Edma.Recovery
import Uboot.Edma.Transmit
import Uboot.Env.Common
import Uboot.Env.Export
import Uboot.Env.ExportBounds
import Uboot.Env.Failure
import Uboot.Env.HashTable
import Uboot.Env.Import
import Uboot.Env.ImportBounds
import Uboot.Env.Lemmas.Invariant
import Uboot.Env.Lemmas.Parse
import Uboot.Env.Lemmas.Prime
import Uboot.Env.Lemmas.Probe
import Uboot.Env.Match
import Uboot.Env.Raw
import Uboot.Env.RoundTrip
import Uboot.Env.Theorems
import Uboot.EnvMmc.Basic
import Uboot.EnvMmc.Theorems
import Uboot.EnvNand.Basic
import Uboot.EnvNand.Placement
import Uboot.EnvNand.Redundant
import Uboot.Fdt.Basic
import Uboot.Fdt.Memory
import Uboot.Fdt.Nodes
import Uboot.Fdt.Partitions
import Uboot.Fit.Hashes
import Uboot.FwEnv.Basic
import Uboot.FwEnv.Flash
import Uboot.FwEnv.Open
import Uboot.FwEnv.Saved
import Uboot.FwEnv.Write
import Uboot.Gpt.Basic
import Uboot.Gpt.Lookup
import Uboot.Gpt.Safety
import Uboot.Hash.Calculate
import Uboot.Hash.Md5
import Uboot.Hash.Sha1
import Uboot.Httpd.Basic
import Uboot.Httpd.Combined
import Uboot.Httpd.FieldType
import Uboot.Httpd.FirstChunk
import Uboot.Httpd.Header
import Uboot.Httpd.Isolation
import Uboot.Httpd.Quiet
import Uboot.Httpd.Request
import Uboot.Httpd.Respond
import Uboot.Httpd.Segmentation
import Uboot.Httpd.Trigger
import Uboot.Httpd.Upload
import Uboot.Httpd.Watch
import Uboot.Image.Multi
import Uboot.Lib.BigEndian
import Uboot.Lib.Bytes
import Uboot.Lib.Chunks
import Uboot.Lib.Except
import Uboot.Lib.Explore
import Uboot.Lib.Fifo
import Uboot.Lib.FlatTree
import Uboot.Lib.Groups
import Uboot.Lib.Hoare
import Uboot.Lib.LineEditor
import Uboot.Lib.OnesComplement
import Uboot.Lib.Ranges
import Uboot.Lib.Rewrite
import Uboot.Lib.Ring
import Uboot.Lib.Scatter
import Uboot.Lib.Stride
import Uboot.Lib.Strings
import Uboot.Lib.Usable
import Uboot.Lib.Xor
import Uboot.Lmb.Alloc
import Uboot.Lmb.Basic
import Uboot.Lmb.Failure
import Uboot.Lmb.Lemmas
import Uboot.Lmb.Placement
import Uboot.Lmb.Table
import Uboot.Lmb.Theorems
import Uboot.Macrw.Basic
import Uboot.Macrw.Checksum
import Uboot.Macrw.Theorems
import Uboot.Macrw.Winbond
import Uboot.Macrw.Write
import Uboot.Mmc.Basic
import Uboot.Mmc.Erase
import Uboot.Mmc.Status
import Uboot.Mmc.Theorems
import Uboot.Mmc.Transfer
import Uboot.Mtdparts.Accepted
import Uboot.Mtdparts.Basic
import Uboot.Mtdparts.Current
import Uboot.Mtdparts.Format
import Uboot.Mtdparts.Generate
import Uboot.Mtdparts.Lemmas
import Uboot.Mtdparts.RoundTrip
import Uboot.Nand.Basic
import Uboot.Nand.DropFfs
import Uboot.Nand.Erase
import Uboot.Nand.SkipBad
import Uboot.Nand.SpiNor
import Uboot.Nand.Theorems
import Uboot.Nand.Yaffs
import Uboot.Net.Basic
import Uboot.Net.Quiescent
import Uboot.Net.Transfers
import Uboot.Net.UdpHeader
import Uboot.Nfs.Basic
import Uboot.Nfs.Bounds
import Uboot.Nfs.Server
import Uboot.Nfs.Theorems
import Uboot.Ping.Basic
import Uboot.Ping.Theorems
import Uboot.QpicNand.Basic
import Uboot.QpicNand.Layout
import Uboot.QpicNand.ReadLinear
import Uboot.QpicNand.Theorems
import Uboot.Receive.Basic
import Uboot.Receive.Theorems
import Uboot.Sf.Basic
import Uboot.Sf.Commands
import Uboot.Sf.Theorems
import Uboot.Smem.Basic
import Uboot.Smem.Bounds
import Uboot.Smem.Entries
import Uboot.Smem.Lookup
import Uboot.Smem.Text
import Uboot.Smem.Theorems
import Uboot.Spi.Chip
import Uboot.Spi.ChipSelect
import Uboot.Spi.Dma
import Uboot.Spi.Flash
import Uboot.Spi.Qup
import Uboot.Spi.RoundTrip
import Uboot.SpiNand.Basic
import Uboot.SpiNand.Data
import Uboot.SpiNand.Linear
import Uboot.SpiNand.LinearWrite
import Uboot.SpiNand.Theorems
import Uboot.Tftp.Basic
import Uboot.Tftp.Blocks
import Uboot.Tftp.Download
import Uboot.Tftp.DownloadExact
import Uboot.Tftp.DownloadRun
import Uboot.Tftp.Oack
import Uboot.Tftp.Upload
import Uboot.Tftp.UploadExact
import Uboot.Tftp.UploadRun
import Uboot.Uip.Basic
import Uboot.Uip.Checksums
import Uboot.Uip.Delivery
import Uboot.Uip.Sending
import Uboot.Uip.Steps
import Uboot.Upgrade.Basic
import Uboot.Upgrade.Lines
import Uboot.Upgrade.Theorems
import Uboot.Vsprintf.Basic
import Uboot.Vsprintf.PutDec
import Uboot.Vsprintf.Strtoull
import Uboot.WebHandlers.Basic
import Uboot.WebHandlers.Listing
import Uboot.WebHandlers.Theorems
import Uboot.WebHandlers.Urldecode
